import CpuSubsystem.ProcImage.SyscallImage.Probes

/-!
# Records across policy switches

A call that is issued while its thread is not selected is counted, but its number is not recorded.
`sys_exit` drops the first batch after some switches for this reason, not after all of them.  What
an event reports is right when all the calls since the previous batch were recorded.
-/

namespace CpuSubsystem.SyscallImage

/-- A call that was issued: its number, and whether the entry probe recorded it. -/
abbrev Issued := Int × Bool

/-- The return probe finds a complete batch. -/
def full (ro : Rodata) (s : State) (cur : Task) : Bool :=
  traced ro s.scCtrlMap cur &&
    match s.procSyscall.lookup cur.pid with
    | none => false
    | some seq => !decide (seq.count < toUnsigned s.scCtrlMap.syscalls)

/-- The first batch after a policy switch. -/
def dropped (s : State) (cur : Task) : Bool := retargetedPid s cur || retargetedTgid s cur

/-- The calls that every thread issued since its previous batch was emitted or reset. -/
def issue (ro : Rodata) (g : Int → List Issued) (s : State) : Event → Int → List Issued
  | .sysEnter cur _ id room =>
      Function.update g cur.pid (g cur.pid ++ [(id, records ro s cur room)])
  | .sysExit cur _ slot =>
      if full ro s cur && (dropped s cur || slot.isSome) then Function.update g cur.pid [] else g
  | _ => g

def issuedSince (ro : Rodata) (c : ScCtrl) (tr : List Event) : Int → List Issued :=
  (machine ro c).ghost (fun _ => []) (issue ro) tr

def NoExit : Event → Prop
  | .schedProcessExit _ => False
  | _ => True

/-- The numbers of the calls as they are stored. -/
def numbers (g : List Issued) : List Int := g.map fun x => toInt x.1

/-- An entry holds the calls `g`. -/
def Reports (g : List Issued) (seq : SyscallSeq) : Prop :=
  seq.count = g.length ∧ seq.recorded = numbers g

theorem numbers_snoc (g : List Issued) (id : Int) (k : Bool) :
    numbers (g ++ [(id, k)]) = numbers g ++ [toInt id] := by
  simp only [numbers, List.map_append, List.map_cons, List.map_nil]

theorem reports_create (pid : Int) (now : UInt64) (id : Int) (k : Bool) :
    Reports [(id, k)] (SyscallSeq.create pid true now id) :=
  ⟨rfl, SyscallSeq.create_recorded pid now id⟩

theorem Reports.enter {g : List Issued} {seq : SyscallSeq} (h : Reports g seq)
    (hlt : seq.count < maxSyscallCount) (now : UInt64) (id : Int) (k : Bool) :
    Reports (g ++ [(id, k)]) (seq.enter true now id) := by
  refine ⟨?_, ?_⟩
  · rw [SyscallSeq.enter_count seq true now id hlt, h.1, List.length_append, List.length_singleton]
  · rw [SyscallSeq.enter_recorded seq now id hlt, h.2, numbers_snoc]

theorem Reports.charge {g : List Issued} {seq : SyscallSeq} (h : Reports g seq) (d : UInt64) :
    Reports g (seq.charge d) := h

theorem Reports.total {g : List Issued} {seq : SyscallSeq} (h : Reports g seq) (k : Bool) :
    Reports g (seq.total k) := by
  refine ⟨?_, ?_⟩
  · rw [SyscallSeq.total_count, h.1]
  · rw [SyscallSeq.total_recorded, h.2]

theorem reports_reset (seq : SyscallSeq) : Reports [] seq.reset :=
  ⟨rfl, seq.reset_recorded⟩

/-- The entry of a thread, against the calls `g` that it issued since its previous batch. -/
structure EntryOk (g : List Issued) (entry : Option SyscallSeq) : Prop where
  count : ∀ seq, entry = some seq → seq.count ≤ maxSyscallCount
  absent : entry = none → (∀ x ∈ g, x.2 = true) → g = []
  present : ∀ seq, entry = some seq → (∀ x ∈ g, x.2 = true) → Reports g seq

section EntryOk

variable {g : List Issued} {entry : Option SyscallSeq} {seq : SyscallSeq}

theorem EntryOk.missed (h : EntryOk g entry) (id : Int) : EntryOk (g ++ [(id, false)]) entry := by
  have hfalse : ¬∀ x ∈ g ++ [(id, false)], x.2 = true := by
    intro hall
    have hlast := hall (id, false) (by simp)
    cases hlast
  exact ⟨h.count, fun _ hall => absurd hall hfalse, fun _ _ hall => absurd hall hfalse⟩

theorem all_of_snoc {id : Int} {k : Bool} (h : ∀ x ∈ g ++ [(id, k)], x.2 = true) :
    (∀ x ∈ g, x.2 = true) ∧ k = true :=
  ⟨fun x hx => h x (List.mem_append_left _ hx), h (id, k) (by simp)⟩

theorem EntryOk.create (h : EntryOk g none) (pid : Int) (sel : Bool) (now : UInt64) (id : Int) :
    EntryOk (g ++ [(id, sel)]) (some (SyscallSeq.create pid sel now id)) := by
  refine ⟨?_, ?_, ?_⟩
  · intro seq hs
    cases hs
    rw [SyscallSeq.create_count]
    decide
  · intro hs
    cases hs
  · intro seq hs hall
    cases hs
    obtain ⟨hg, hsel⟩ := all_of_snoc hall
    rw [h.absent rfl hg, hsel]
    exact reports_create pid now id true

theorem EntryOk.enter (h : EntryOk g (some seq)) (sel : Bool) (now : UInt64) (id : Int) :
    EntryOk (g ++ [(id, sel && decide (seq.count < maxSyscallCount))])
      (some (seq.enter sel now id)) := by
  refine ⟨?_, ?_, ?_⟩
  · intro seq' hs
    cases hs
    exact SyscallSeq.enter_count_le (h.count seq rfl) sel now id
  · intro hs
    cases hs
  · intro seq' hs hall
    cases hs
    obtain ⟨hg, hk⟩ := all_of_snoc hall
    rw [Bool.and_eq_true, decide_eq_true_eq] at hk
    rw [hk.1]
    exact (h.present seq rfl hg).enter hk.2 now id _

/-- The entry is charged, its batch goes on. -/
theorem EntryOk.keep (h : EntryOk g (some seq)) {seq' : SyscallSeq}
    (hcount : seq'.count = seq.count) (hrec : seq'.recorded = seq.recorded) :
    EntryOk g (some seq') := by
  refine ⟨?_, ?_, ?_⟩
  · intro x hx
    cases hx
    rw [hcount]
    exact h.count seq rfl
  · intro hs
    cases hs
  · intro x hx hall
    cases hx
    exact ⟨hcount.trans (h.present seq rfl hall).1, hrec.trans (h.present seq rfl hall).2⟩

theorem entryOk_reset (seq : SyscallSeq) : EntryOk [] (some seq.reset) := by
  refine ⟨?_, ?_, ?_⟩
  · intro x hx
    cases hx
    exact Nat.zero_le _
  · intro hs
    cases hs
  · intro x hx _
    cases hx
    exact reports_reset seq

end EntryOk

def Entries (g : Int → List Issued) (s : State) : Prop :=
  ∀ p, EntryOk (g p) (s.procSyscall.lookup p)

section Step

variable (ro : Rodata) {g : Int → List Issued} {s : State}

theorem sysEnter_entries (h : Entries g s) (cur : Task) (now : UInt64) (id : Int) (room : Bool) :
    Entries (issue ro g s (.sysEnter cur now id room)) (sysEnter ro s cur now id room) := by
  intro p
  simp only [issue]
  by_cases hp : p = cur.pid
  · subst hp
    rw [Function.update_self]
    have hcur := h cur.pid
    cases ht : traced ro s.scCtrlMap cur with
    | false =>
      have hk : records ro s cur room = false := by
        rw [records, ht, Bool.false_and, Bool.false_and]
      rw [sysEnter_untraced ro s cur now id room ht, hk]
      exact hcur.missed id
    | true =>
      cases hl : s.procSyscall.lookup cur.pid with
      | none =>
        have hk : records ro s cur room =
            (selected s.scCtrlMap cur.pid cur.tgid && room) := by
          rw [records, ht, hl, Bool.true_and]
        rw [sysEnter_absent ro s cur now id room ht hl, hk]
        rw [hl] at hcur
        -- a refused entry leaves a call that is missed
        cases room with
        | false =>
          rw [Bool.and_false, BpfMap.update_of_not_accepts _ (by rw [BpfMap.accepts, hl]; rfl), hl]
          exact hcur.missed id
        | true =>
          rw [Bool.and_true, BpfMap.update_true, BpfMap.lookup_store_self]
          exact hcur.create cur.pid _ now id
      | some seq =>
        have hk : records ro s cur room = (selected s.scCtrlMap cur.pid cur.tgid &&
            decide (seq.count < maxSyscallCount)) := by
          rw [records, ht, hl, Bool.true_and]
        rw [sysEnter_present ro s cur now id room ht hl, hk, State.put_lookup_self]
        rw [hl] at hcur
        exact hcur.enter _ now id
  · rw [Function.update_of_ne hp, (sysEnter_frame ro s cur now id room).2.2.2 p hp]
    exact h p

/-- The entry of the current thread after `sys_exit`, and what was emitted. -/
theorem exit_entryOk {cur : Task} {slot : Option SyscallSeq} {seq : SyscallSeq}
    {res : State × List SyscallSeq} (hc : ExitCase s cur slot seq res) {gs : List Issued}
    (h : EntryOk gs (some seq)) {isFull : Bool}
    (hfull : isFull = !decide (seq.count < toUnsigned s.scCtrlMap.syscalls)) :
    EntryOk (if isFull && (dropped s cur || slot.isSome) then [] else gs)
      (res.1.procSyscall.lookup cur.pid) ∧
    ∀ r ∈ res.2, (isFull && !dropped s cur && slot.isSome) = true ∧ r.pid = cur.pid ∧
      r.tgid = cur.tgid ∧ ((∀ x ∈ gs, x.2 = true) → Reports gs r) := by
  have hnone : ∀ r ∈ ([] : List SyscallSeq),
      (isFull && !dropped s cur && slot.isSome) = true ∧ r.pid = cur.pid ∧
      r.tgid = cur.tgid ∧ ((∀ x ∈ gs, x.2 = true) → Reports gs r) :=
    fun r hr => absurd hr List.not_mem_nil
  have hreset : ∀ s' : State, s'.procSyscall = (s.put cur.pid seq.reset).procSyscall →
      EntryOk [] (s'.procSyscall.lookup cur.pid) := by
    intro s' hs
    rw [hs, State.put_lookup_self]
    exact entryOk_reset seq
  -- only the last way through the probe emits, and all that close the batch start over
  cases hc with
  | more hopen =>
    rw [decide_eq_true hopen] at hfull
    rw [hfull] at hnone ⊢
    refine ⟨?_, hnone⟩
    rw [State.put_lookup_self]
    exact h
  | dropPid hclosed hp =>
    rw [decide_eq_false hclosed] at hfull
    have hdrop : dropped s cur = true := by rw [dropped, hp, Bool.true_or]
    rw [hfull, hdrop] at hnone ⊢
    exact ⟨hreset _ rfl, hnone⟩
  | dropTgid hclosed hp ht =>
    rw [decide_eq_false hclosed] at hfull
    have hdrop : dropped s cur = true := by rw [dropped, ht, Bool.or_true]
    rw [hfull, hdrop] at hnone ⊢
    exact ⟨hreset _ rfl, hnone⟩
  | noSlot hclosed hp ht hslot =>
    have hdrop : dropped s cur = false := by rw [dropped, hp, ht, Bool.or_false]
    rw [hdrop, hslot] at hnone ⊢
    rw [Option.isSome_none, Bool.or_false, Bool.and_false, if_neg Bool.false_ne_true]
    refine ⟨?_, hnone⟩
    rw [State.put_lookup_self]
    exact h.keep (seq.total_count _) (seq.total_recorded _)
  | emit mem hclosed hp ht hslot =>
    rw [decide_eq_false hclosed] at hfull
    have hdrop : dropped s cur = false := by rw [dropped, hp, ht, Bool.or_false]
    rw [hfull, hdrop, hslot]
    refine ⟨?_, fun r hr => ?_⟩
    · rw [State.put_lookup_self]
      exact entryOk_reset _
    · rw [List.mem_singleton.mp hr]
      refine ⟨rfl, rfl, rfl, fun hall => ?_⟩
      have hrep := (h.present seq rfl hall).total (selected s.scCtrlMap cur.pid cur.tgid)
      have hle := h.count seq rfl
      rw [← seq.total_count (selected s.scCtrlMap cur.pid cur.tgid)] at hle
      refine ⟨?_, ?_⟩
      · rw [SyscallSeq.fill_count, hrep.1]
      · rw [SyscallSeq.fill_recorded _ _ _ _ hle, hrep.2]

theorem sysExit_entries (h : Entries g s) (cur : Task) (now : UInt64) (slot : Option SyscallSeq) :
    Entries (issue ro g s (.sysExit cur now slot)) (sysExit ro s cur now slot).1 ∧
    ∀ r ∈ (sysExit ro s cur now slot).2,
      (full ro s cur && !dropped s cur && slot.isSome) = true ∧ r.pid = cur.pid ∧
      r.tgid = cur.tgid ∧ ((∀ x ∈ g cur.pid, x.2 = true) → Reports (g cur.pid) r) := by
  have hcur := h cur.pid
  have hframe := (sysExit_frame ro s cur now slot).2.1
  have hother : ∀ p, p ≠ cur.pid → issue ro g s (.sysExit cur now slot) p = g p := by
    intro p hp
    simp only [issue]
    split
    · rw [Function.update_of_ne hp]
    · rfl
  have hself : issue ro g s (.sysExit cur now slot) cur.pid =
      if full ro s cur && (dropped s cur || slot.isSome) then [] else g cur.pid := by
    simp only [issue]
    split
    · rw [Function.update_self]
    · rfl
  -- the probe touches the entry of its own thread only
  suffices hs : EntryOk (if full ro s cur && (dropped s cur || slot.isSome) then [] else g cur.pid)
      ((sysExit ro s cur now slot).1.procSyscall.lookup cur.pid) ∧
      ∀ r ∈ (sysExit ro s cur now slot).2,
        (full ro s cur && !dropped s cur && slot.isSome) = true ∧ r.pid = cur.pid ∧
        r.tgid = cur.tgid ∧ ((∀ x ∈ g cur.pid, x.2 = true) → Reports (g cur.pid) r) by
    refine ⟨fun p => ?_, hs.2⟩
    by_cases hp : p = cur.pid
    · rw [hp, hself]
      exact hs.1
    · rw [hother p hp, hframe p hp]
      exact h p
  cases ht : traced ro s.scCtrlMap cur with
  | false =>
    rw [sysExit_untraced ro s cur now slot ht, full, ht]
    exact ⟨hcur, fun r hr => absurd hr List.not_mem_nil⟩
  | true =>
    cases hl : s.procSyscall.lookup cur.pid with
    | none =>
      have hfull : full ro s cur = false := by rw [full, hl, Bool.and_false]
      rw [sysExit_absent ro s cur now slot hl, hfull]
      exact ⟨hcur, fun r hr => absurd hr List.not_mem_nil⟩
    | some seq =>
      rw [hl] at hcur
      have hkeep := hcur.keep (seq.charge_count (now - seq.enterTime))
        (seq.charge_recorded (now - seq.enterTime))
      apply exit_entryOk (sysExit_present ro s cur now slot ht hl) hkeep
      rw [full, ht, hl, Bool.true_and, SyscallSeq.charge_count]

end Step

section Run

variable (ro : Rodata) (c : ScCtrl)

/-- When a batch of a selected thread is emitted, its calls since the previous one were recorded. -/
def AllRecorded (pre : List Event) : Event → Prop
  | .sysExit cur _ slot =>
      let s := (machine ro c).exec pre
      selected s.scCtrlMap cur.pid cur.tgid = true →
        (full ro s cur && !dropped s cur && slot.isSome) = true →
        ∀ x ∈ issuedSince ro c pre cur.pid, x.2 = true
  | _ => True

instance (pre : List Event) : ∀ e, Decidable (AllRecorded ro c pre e)
  | .sysExit cur _ _ =>
      inferInstanceAs (Decidable (_ → _ → ∀ x ∈ issuedSince ro c pre cur.pid, x.2 = true))
  | .scCtrl _ | .sysEnter .. | .schedProcessExit _ => isTrue trivial

/-- What is emitted for a thread that the control value in force selects reports the calls that the
thread issued since its previous batch was emitted or reset. -/
def ReportsIssued (pre : List Event) (e : Event) : Prop :=
  ∀ r ∈ (machine ro c).emits pre e,
    selected ((machine ro c).exec pre).scCtrlMap r.pid r.tgid = true →
    Reports (issuedSince ro c pre r.pid) r

instance (pre : List Event) (e : Event) : Decidable (ReportsIssued ro c pre e) :=
  inferInstanceAs (Decidable (∀ r ∈ (machine ro c).emits pre e, _ → _ ∧ _))

variable {ro c}

theorem entries_exec {tr : List Event} (hex : ∀ e ∈ tr, NoExit e) :
    Entries (issuedSince ro c tr) ((machine ro c).exec tr) := by
  induction tr using List.reverseRecOn with
  | nil =>
    intro p
    refine ⟨?_, fun _ _ => rfl, ?_⟩
    · intro seq hs
      cases hs
    · intro seq hs
      cases hs
  | append_singleton pre e ih =>
    have hpre := ih (fun x hx => hex x (List.mem_append_left _ hx))
    have he := hex e (List.mem_append_right _ (List.mem_singleton_self e))
    rw [issuedSince, Machine.ghost_snoc, Machine.exec_snoc]
    cases e with
    | scCtrl c' => exact hpre
    | sysEnter cur now id room => exact sysEnter_entries ro hpre cur now id room
    | sysExit cur now slot => exact (sysExit_entries ro hpre cur now slot).1
    | schedProcessExit cur => exact he.elim

/-- In every run without process exits, whatever the control values, the failures and the order of
the probes, the events are right as long as they are emitted for recorded calls only. -/
theorem reports_issued (ro : Rodata) (c : ScCtrl) (tr : List Event) (hex : ∀ e ∈ tr, NoExit e)
    (h : Throughout (AllRecorded ro c) tr) : Throughout (ReportsIssued ro c) tr := by
  intro pre e hp r hr hsel
  have hpre : Entries (issuedSince ro c pre) ((machine ro c).exec pre) := by
    apply entries_exec
    intro x hx
    exact hex x (hp.subset (List.mem_append_left _ hx))
  have hall := h pre e hp
  cases e with
  | scCtrl c' => cases hr
  | sysEnter cur now id room => cases hr
  | schedProcessExit cur => cases hr
  | sysExit cur now slot =>
    obtain ⟨hemit, hpid, htgid, hrep⟩ := (sysExit_entries ro hpre cur now slot).2 r hr
    rw [hpid, htgid] at hsel
    rw [hpid]
    exact hrep (hall hsel hemit)

end Run

section Switch

/-- Batches of two calls; thread 9 is the target. -/
def onlyNine : ScCtrl where
  scFunc := true
  enableMyproc := false
  isContainer := false
  targetPid := 9
  targetTgid := -1
  syscalls := 2

/-- Thread 5 makes a call before and a call after the switch to all threads. -/
def switchToAll : List Event :=
  [.sysEnter ⟨5, 4, none⟩ 100 39 true, .sysExit ⟨5, 4, none⟩ 107 (some .zero),
    .scCtrl { onlyNine with targetPid := -1 },
    .sysEnter ⟨5, 4, none⟩ 110 202 true, .sysExit ⟨5, 4, none⟩ 112 (some .zero)]

/-- The same with thread 9, which is recorded throughout. -/
def switchOfTarget : List Event :=
  [.sysEnter ⟨9, 9, none⟩ 100 39 true, .sysExit ⟨9, 9, none⟩ 107 (some .zero),
    .scCtrl { onlyNine with targetPid := -1 },
    .sysEnter ⟨9, 9, none⟩ 110 202 true, .sysExit ⟨9, 9, none⟩ 112 (some .zero)]

theorem reports_issued_of_target :
    (machine ⟨1, []⟩ onlyNine).emitted switchOfTarget ≠ [] ∧
    Throughout (ReportsIssued ⟨1, []⟩ onlyNine) switchOfTarget :=
  ⟨by decide +kernel, reports_issued ⟨1, []⟩ onlyNine switchOfTarget
    (by simp [switchOfTarget, NoExit]) (by decide +kernel)⟩

/-- The event of thread 5 has 0 in the place of the call that was counted and not recorded. -/
theorem switch_reports_unrecorded :
    (∀ e ∈ switchToAll, NoExit e) ∧
    ¬Throughout (ReportsIssued ⟨1, []⟩ onlyNine) switchToAll ∧
    (machine ⟨1, []⟩ onlyNine).emitted switchToAll ≠ [] ∧
    ∀ r ∈ (machine ⟨1, []⟩ onlyNine).emitted switchToAll,
      r.pid = 5 ∧ r.count = 2 ∧ r.recorded = [0, 202] := by
  refine ⟨by simp [switchToAll, NoExit], ?_, ?_, ?_⟩ <;> decide +kernel

end Switch

end CpuSubsystem.SyscallImage
