import CpuSubsystem.ProcImage.SyscallImage.Probes
import CpuSubsystem.ProcImage.SyscallImage.Table

/-!
# From the recorded numbers to the table

The kernel side records `(int)args->id` as it comes, and the user side indexes its table with it;
neither checks the range.  The accesses are in range when the recorded numbers are.
-/

namespace CpuSubsystem.SyscallImage

/-- An entry whose recorded numbers are all in the table. -/
structure SyscallSeq.Tabled (seq : SyscallSeq) : Prop where
  count : seq.count ≤ maxSyscallCount
  inTable : ∀ (i : Nat) (hi : i < maxSyscallCount), InTable seq.recordSyscall[i]

namespace SyscallSeq.Tabled

variable {seq : SyscallSeq}

theorem zero : SyscallSeq.zero.Tabled where
  count := Nat.zero_le _
  inTable i hi := by
    simp only [SyscallSeq.zero, Vector.getElem_replicate]
    decide

theorem append (h : seq.Tabled) {sel : Bool} {id : Int} (hid : sel = true → InTable (toInt id))
    (hlt : seq.count < maxSyscallCount) : (seq.append sel id hlt).Tabled where
  count := hlt
  inTable i hi := by
    unfold SyscallSeq.append
    by_cases hsel : sel = true
    · simp only [hsel, if_true, Vector.getElem_set]
      split
      · exact hid hsel
      · exact h.inTable i hi
    · simp only [hsel, if_false, Bool.false_eq_true]
      exact h.inTable i hi

theorem enter (h : seq.Tabled) {sel : Bool} (now : UInt64) {id : Int}
    (hid : seq.count < maxSyscallCount → sel = true → InTable (toInt id)) :
    (seq.enter sel now id).Tabled := by
  by_cases hlt : seq.count < maxSyscallCount
  · rw [enter_of_lt seq sel now id hlt]
    have happ := h.append (hid hlt) hlt
    exact ⟨happ.count, happ.inTable⟩
  · rw [enter_of_full seq sel now id hlt]
    exact ⟨h.count, h.inTable⟩

theorem create (pid : Int) {sel : Bool} (now : UInt64) {id : Int}
    (hid : sel = true → InTable (toInt id)) : (SyscallSeq.create pid sel now id).Tabled := by
  have happ := zero.append hid (by decide)
  exact ⟨happ.count, happ.inTable⟩

theorem charge (h : seq.Tabled) (d : UInt64) : (seq.charge d).Tabled :=
  ⟨h.count, h.inTable⟩

theorem reset (h : seq.Tabled) : seq.reset.Tabled :=
  ⟨Nat.zero_le _, h.inTable⟩

theorem total (h : seq.Tabled) (sel : Bool) : (seq.total sel).Tabled := by
  cases sel
  · exact h
  · exact ⟨h.count, h.inTable⟩

/-- The numbers of the record come from the entry, not from the reserved memory. -/
theorem fill (h : seq.Tabled) (sel : Bool) (cur : Task) (mem : SyscallSeq) :
    (seq.fill sel cur mem).InRange where
  count := h.count
  inTable i hi hlt := by
    have hmax : maxSyscallCount = 50 := rfl
    have hcount := h.count
    rw [fill_count] at hlt
    have hloop : i ≤ (seq.count + (2 ^ 32 - 1)) % 2 ^ 32 := by omega
    simp only [SyscallSeq.fill, copyRecord, Vector.getElem_ofFn]
    rw [if_pos hloop]
    exact h.inTable i hi

end SyscallSeq.Tabled

/-- The number that the event writes into an array `record_syscall`. -/
def storedId (ro : Rodata) (s : State) : Event → Option Int
  | .sysEnter cur _ id room => if records ro s cur room then some (toInt id) else none
  | _ => none

/-- The step stores no number outside the table. -/
def StoresInTable (ro : Rodata) (s : State) (e : Event) : Prop :=
  ∀ x ∈ storedId ro s e, InTable x

instance (ro : Rodata) (s : State) (e : Event) : Decidable (StoresInTable ro s e) :=
  inferInstanceAs (Decidable (∀ x ∈ storedId ro s e, InTable x))

def State.Tabled (s : State) : Prop :=
  ∀ p seq, s.procSyscall.lookup p = some seq → seq.Tabled

theorem State.Tabled.put {s : State} (h : s.Tabled) (p : Int) {seq : SyscallSeq}
    (hseq : seq.Tabled) : (s.put p seq).Tabled :=
  BpfMap.forall_store h p hseq

theorem sysEnter_tabled (ro : Rodata) {s : State} (h : s.Tabled) {cur : Task} {now : UInt64}
    {id : Int} {room : Bool} (hid : StoresInTable ro s (.sysEnter cur now id room)) :
    (sysEnter ro s cur now id room).Tabled := by
  rcases sysEnter_cases ro s cur now id room with hs | ⟨ht, hl, hroom, hs⟩ | ⟨seq, ht, hl, hs⟩
  · rw [hs]
    exact h
  all_goals simp only [StoresInTable, storedId, records, ht, hl, Bool.true_and] at hid
  · rw [hs]
    apply h.put
    apply SyscallSeq.Tabled.create
    intro hsel
    rw [hsel, hroom] at hid
    exact hid _ rfl
  · rw [hs]
    apply h.put
    apply (h _ _ hl).enter
    intro hlt hsel
    rw [hsel] at hid
    simp only [hlt, decide_true, Bool.and_self, if_true] at hid
    exact hid _ rfl

theorem sysExit_tabled (ro : Rodata) {s : State} (h : s.Tabled) (cur : Task) (now : UInt64)
    (slot : Option SyscallSeq) :
    (sysExit ro s cur now slot).1.Tabled ∧ ∀ r ∈ (sysExit ro s cur now slot).2, r.InRange := by
  have hnone : ∀ r ∈ ([] : List SyscallSeq), r.InRange := fun r hr => absurd hr List.not_mem_nil
  rcases sysExit_cases ro s cur now slot with hsame | ⟨seq, -, hl, hc⟩
  · rw [hsame]
    exact ⟨h, hnone⟩
  · have hseq := (h _ _ hl).charge (now - seq.enterTime)
    generalize sysExit ro s cur now slot = res at hc ⊢
    cases hc with
    | more _ => exact ⟨h.put _ hseq, hnone⟩
    | dropPid _ _ => exact ⟨h.put cur.pid hseq.reset, hnone⟩
    | dropTgid _ _ _ => exact ⟨h.put cur.pid hseq.reset, hnone⟩
    | noSlot _ _ _ _ => exact ⟨h.put _ (hseq.total _), hnone⟩
    | emit mem _ _ _ _ =>
      refine ⟨h.put _ (hseq.total _).reset, fun r hr => ?_⟩
      rw [List.mem_singleton.mp hr]
      exact (hseq.total _).fill _ cur mem

theorem step_tabled (ro : Rodata) {s : State} {e : Event} (h : s.Tabled)
    (hid : StoresInTable ro s e) :
    (step ro s e).1.Tabled ∧ ∀ r ∈ (step ro s e).2, r.InRange := by
  have hnone : ∀ r ∈ ([] : List SyscallSeq), r.InRange := fun r hr => absurd hr List.not_mem_nil
  cases e with
  | scCtrl c => exact ⟨h, hnone⟩
  | sysEnter cur now id room => exact ⟨sysEnter_tabled ro h hid, hnone⟩
  | sysExit cur now slot => exact sysExit_tabled ro h cur now slot
  | schedProcessExit cur =>
    refine ⟨?_, hnone⟩
    change (schedProcessExit s cur).Tabled
    unfold schedProcessExit
    split
    · exact BpfMap.forall_delete h cur.pid
    · exact h

/-- While the recorded numbers are numbers of the table, the records only hold such numbers, and
the reader, under whatever control values, never leaves a table. -/
theorem accesses_in_table (ro : Rodata) (c : ScCtrl) (tr : List Event)
    (h : Throughout (fun pre e => StoresInTable ro ((machine ro c).exec pre) e) tr) :
    (∀ r ∈ (machine ro c).emitted tr, r.InRange) ∧
    ∀ rs : List (ScCtrl × SyscallSeq), (∀ x ∈ rs, x.2 ∈ (machine ro c).emitted tr) →
      ∀ i, printAll Env.initial rs ≠ .error (.outOfRange i) := by
  have hinit : (machine ro c).init.Tabled := by
    intro p seq hp
    cases hp
  have hrun : ∀ pre, pre <+: tr → ((machine ro c).exec pre).Tabled := by
    intro pre hp
    exact (machine ro c).invariant_of_steps hinit (fun s e hs hq => (step_tabled ro hs hq).1)
      (h.restrict hp)
  have hrec : ∀ r ∈ (machine ro c).emitted tr, r.InRange := by
    intro r hr
    obtain ⟨pre, e, hp, hre⟩ := (machine ro c).mem_emitted hr
    have hpre := hrun pre ((List.prefix_append pre [e]).trans hp)
    exact (step_tabled ro hpre (h pre e hp)).2 r hre
  refine ⟨hrec, fun rs hrs i hi => ?_⟩
  have hm := meets_printAll (fun x hx => hrec x.2 (hrs x hx))
  rw [hi] at hm
  cases hm

section Stray

/-- All threads, one call in a batch. -/
def anyThread : ScCtrl where
  scFunc := true
  enableMyproc := false
  isContainer := false
  targetPid := -1
  targetTgid := -1
  syscalls := 1

def oneCall (id : Int) : List Event :=
  [.sysEnter ⟨5, 4, none⟩ 100 id true, .sysExit ⟨5, 4, none⟩ 107 (some .zero)]

theorem accesses_in_table_one_call :
    (∀ r ∈ (machine ⟨1, []⟩ anyThread).emitted (oneCall 202), r.InRange) ∧
    ∀ rs : List (ScCtrl × SyscallSeq),
      (∀ x ∈ rs, x.2 ∈ (machine ⟨1, []⟩ anyThread).emitted (oneCall 202)) →
      ∀ i, printAll Env.initial rs ≠ .error (.outOfRange i) :=
  accesses_in_table ⟨1, []⟩ anyThread (oneCall 202) (by decide)

/-- A call with number -1, which every thread can issue. -/
theorem stray_number_leaves_table :
    ∃ r ∈ (machine ⟨1, []⟩ anyThread).emitted (oneCall (-1)),
      0 < r.count ∧ r.recordAt 0 = .ok (-1) ∧ ¬InTable (-1) ∧
      updateSyscalls ProcSyscallInfo.zero r = .error (.outOfRange (-1)) := by
  decide +kernel

end Stray

end CpuSubsystem.SyscallImage
