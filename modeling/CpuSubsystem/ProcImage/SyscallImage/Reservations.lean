import CpuSubsystem.ProcImage.SyscallImage.Ledger

/-!
# Failed reservations

The totals of a thread take in the batch before the ring buffer is asked for room, and the batch
stays open when there is none.  The next return adds the whole batch to the totals again.  What is
sent of a thread is right up to its first failed reservation.
-/

namespace CpuSubsystem.SyscallImage

section Policy

variable (ro : Rodata) (c : ScCtrl)

/-- What is sent of a selected thread reports the batch `b` that it submits, and the calls of all
the batches that the thread submitted, each of them once. -/
def CountedOnce (pre : List Event) (e : Event) : Prop :=
  ∀ r ∈ (machine ro c).emits pre e, selected c r.pid r.tgid = true → ∃ b,
    (ledger ro c r.pid (pre ++ [e])).kept = (ledger ro c r.pid pre).kept ++ b ∧
    r.count = b.length ∧ r.sumDelay = delaySum b ∧
    r.procCount = (ledger ro c r.pid (pre ++ [e])).kept.length ∧
    r.procSd = delaySum (ledger ro c r.pid (pre ++ [e])).kept

/-- When a batch of a selected thread is submitted, no probe of the thread has been turned away and
no reservation for it has failed, and `proc_count` has room for its calls. -/
def Unbroken (pre : List Event) : Event → Prop
  | .sysExit cur now slot =>
    selected c cur.pid cur.tgid = true →
      fate ro ((machine ro c).exec pre) cur slot = .submitted →
      Throughout (CleanFor ro c cur.pid) (pre ++ [.sysExit cur now slot]) ∧
        (ledger ro c cur.pid (pre ++ [.sysExit cur now slot])).kept.length < 2 ^ 32
  | .sysEnter .. | .scCtrl _ | .schedProcessExit _ => True

instance (pre : List Event) : DecidablePred (Unbroken ro c pre)
  | .sysExit _ _ _ => inferInstanceAs (Decidable (_ = true → _ → _ ∧ _))
  | .sysEnter .. | .scCtrl _ | .schedProcessExit _ => isTrue trivial

end Policy

section Run

variable {ro : Rodata} {c : ScCtrl} {tgidOf : Int → Int} {tr : List Event}

/-- What is sent was submitted. -/
theorem fate_of_emits {s : State} {cur : Task} {now : UInt64} {slot : Option SyscallSeq}
    {r : SyscallSeq} (hr : r ∈ (sysExit ro s cur now slot).2) :
    fate ro s cur slot = .submitted := by
  obtain ⟨seq, mem, ht, hl, hclosed, hpid, htgid, hslot, -⟩ := sysExit_emits ro s cur now slot hr
  have hdrop : ¬dropped s cur = true := by
    rw [dropped, hpid, htgid]
    decide
  rw [fate_present slot ht hl, if_neg hclosed, if_neg hdrop, hslot]
  rfl

/-- Under one control value, whatever the other threads go through: as long as no selected thread
submits a batch after a failed reservation of its own, every batch that is sent reports its calls,
and the totals count every call of the batches sent so far once. -/
theorem counted_once (ro : Rodata) (c : ScCtrl) (tgidOf : Int → Int) (tr : List Event)
    (hrun : ProbeRun c tgidOf tr) (h : Throughout (Unbroken ro c) tr) :
    Throughout (CountedOnce ro c) tr := by
  intro pre e hp r hr hsel
  have hone := hrun.restrict hp
  have hunbroken := h pre e hp
  obtain ⟨cur, now, slot, rfl, hpid, htgid⟩ := exit_of_emits hr
  obtain ⟨hclean, hlt⟩ := hunbroken (by rw [← hpid, ← htgid]; exact hsel) (fate_of_emits hr)
  rw [← hpid] at hclean hlt
  obtain ⟨htgid', b, hsent⟩ := sent_of_clean ro hone hr hclean
  rw [htgid'] at hsel
  refine ⟨b, hsent.kept, hsent.batch.count, hsent.batch.sumDelay, ?_, hsent.procSd hsel⟩
  rw [hsent.procCount hsel, Nat.mod_eq_of_lt hlt]

end Run

section Sample

/-- All threads, one call in a batch. -/
def everyCall : ScCtrl where
  scFunc := true
  enableMyproc := false
  isContainer := false
  targetPid := -1
  targetTgid := -1
  syscalls := 1

/-- The first reservation of thread 5 fails. -/
def reservationFails : List Event :=
  [.sysEnter ⟨5, 4, none⟩ 100 0 true, .sysExit ⟨5, 4, none⟩ 107 none,
    .sysEnter ⟨5, 4, none⟩ 110 1 true, .sysExit ⟨5, 4, none⟩ 113 (some .zero)]

theorem reservationFails_probes : ProbeRun everyCall (fun _ => 4) reservationFails where
  scFunc := rfl
  syscalls := by decide
  probing := by decide
  alternating p := by
    by_cases h5 : p = 5
    · subst h5
      decide
    · have h5' : ¬(5 : Int) = p := fun h => h5 h.symm
      simp [Alternating, reservationFails, view, h5']

/-- Of two calls three are counted. -/
theorem reservationFails_countedTwice :
    ProbeRun everyCall (fun _ => 4) reservationFails ∧
    ¬Throughout (CountedOnce ⟨1, []⟩ everyCall) reservationFails := by
  refine ⟨reservationFails_probes, fun h => ?_⟩
  obtain ⟨r, hr, hsel, hpid, hproc⟩ : ∃ r ∈ (machine ⟨1, []⟩ everyCall).emits
      (reservationFails.take 3) (.sysExit ⟨5, 4, none⟩ 113 (some .zero)),
      selected everyCall r.pid r.tgid = true ∧ r.pid = 5 ∧ r.procCount = 3 := by
    decide +kernel
  obtain ⟨b, -, -, -, hcount, -⟩ := h (reservationFails.take 3) _ List.prefix_rfl r hr hsel
  rw [hpid, hproc] at hcount
  exact absurd hcount (by decide +kernel)

/-- A reservation of thread 7 fails, and thread 5 goes on. -/
def otherFails : List Event :=
  [.sysEnter ⟨5, 4, none⟩ 100 0 true, .sysEnter ⟨7, 4, none⟩ 103 1 true,
    .sysExit ⟨5, 4, none⟩ 107 (some .zero), .sysExit ⟨7, 4, none⟩ 108 none,
    .sysEnter ⟨5, 4, none⟩ 110 1 true, .sysExit ⟨5, 4, none⟩ 113 (some .zero)]

theorem otherFails_probes : ProbeRun everyCall (fun _ => 4) otherFails where
  scFunc := rfl
  syscalls := by decide
  probing := by decide
  alternating p := by
    by_cases h5 : p = 5
    · subst h5
      decide
    · by_cases h7 : p = 7
      · subst h7
        decide
      · have h5' : ¬(5 : Int) = p := fun h => h5 h.symm
        have h7' : ¬(7 : Int) = p := fun h => h7 h.symm
        simp [Alternating, otherFails, view, h5', h7']

theorem counted_once_otherFails : Throughout (CountedOnce ⟨1, []⟩ everyCall) otherFails :=
  counted_once ⟨1, []⟩ everyCall (fun _ => 4) otherFails otherFails_probes (by decide +kernel)

end Sample

end CpuSubsystem.SyscallImage
