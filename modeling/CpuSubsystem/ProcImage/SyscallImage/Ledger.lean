import CpuSubsystem.Lib.Tally
import CpuSubsystem.ProcImage.SyscallImage.Batches
import CpuSubsystem.ProcImage.SyscallImage.Delay
import CpuSubsystem.ProcImage.SyscallImage.Retarget

/-!
# A ledger of every thread

The ledger of a thread holds its calls: those of the open batch, and those of the batches that were
submitted.  It is kept beside the program, from the probes and from what becomes of a batch that is
full.  The entry of a thread agrees with its ledger as long as nothing went wrong with its probes.
-/

namespace CpuSubsystem.SyscallImage

/-- The delays of calls, as the program computes them. -/
def delays (b : List Call) : List UInt64 := b.map fun a => a.2 - a.1.2

/-- What becomes of the open batch at a return: it stays open, or it starts over. -/
inductive Fate where
  | stays
  | discarded
  | submitted
deriving DecidableEq, Repr

def fate (ro : Rodata) (s : State) (cur : Task) (slot : Option SyscallSeq) : Fate :=
  if full ro s cur then
    if dropped s cur then .discarded
    else if slot.isSome then .submitted
    else .stays
  else .stays

structure Ledger where
  seen : Calls (Int × UInt64) UInt64
  batch : List Call
  kept : List Call

def Ledger.empty : Ledger := ⟨⟨none, []⟩, [], []⟩

def Ledger.enter (g : Ledger) (a : Int × UInt64) : Ledger :=
  { g with seen := g.seen.step (.enter a) }

/-- A return without an entry is no call. -/
def Ledger.exit (g : Ledger) (f : Fate) (now : UInt64) : Ledger :=
  match g.seen.pending with
  | none => g
  | some a =>
    match f with
    | .stays => ⟨g.seen.step (.exit now), g.batch ++ [(a, now)], g.kept⟩
    | .discarded => ⟨g.seen.step (.exit now), [], g.kept⟩
    | .submitted => ⟨g.seen.step (.exit now), [], g.kept ++ (g.batch ++ [(a, now)])⟩

def Ledger.step (ro : Rodata) (p : Int) (g : Ledger) (s : State) : Event → Ledger
  | .sysEnter cur now id _ => if cur.pid = p then g.enter (id, now) else g
  | .sysExit cur now slot => if cur.pid = p then g.exit (fate ro s cur slot) now else g
  | .scCtrl _ | .schedProcessExit _ => g

/-- The ledger of the thread after a run. -/
def ledger (ro : Rodata) (c : ScCtrl) (p : Int) : List Event → Ledger :=
  (machine ro c).ghost Ledger.empty (Ledger.step ro p)

/-- The entry agrees with the ledger; the totals are those of a selected thread. -/
structure Ledger.Matches (sel : Bool) (g : Ledger) (seq : SyscallSeq) : Prop where
  holds : Holds sel g.batch g.seen.pending seq
  procCount : sel = true → seq.procCount = g.kept.length % 2 ^ 32
  procSd : sel = true → seq.procSd = delaySum g.kept
  greatest : Greatest (delays g.seen.completed) seq.maxDelay
  least : (∀ d ∈ delays g.seen.completed, d ≠ 0) → Least (delays g.seen.completed) seq.minDelay

/-- The same of the entry or its absence, with batches of `n` calls. -/
structure Ledger.Tracks (sel : Bool) (n : Nat) (g : Ledger) (entry : Option SyscallSeq) :
    Prop where
  absent : entry = none → g = Ledger.empty
  begun : ∀ seq, entry = some seq → g.seen ≠ ⟨none, []⟩
  agrees : ∀ seq, entry = some seq → g.Matches sel seq
  short : g.batch.length < n

section Agreement

variable {sel : Bool} {n : Nat} {g : Ledger} {seq : SyscallSeq} {a : Int × UInt64} {now : UInt64}

theorem delays_append (b b' : List Call) : delays (b ++ b') = delays b ++ delays b' :=
  List.map_append

theorem delaySum_eq (b : List Call) : delaySum b = (delays b).sum := rfl

theorem delaySum_append (b b' : List Call) : delaySum (b ++ b') = delaySum b + delaySum b' := by
  rw [delaySum_eq, delays_append, List.sum_append]
  rfl

theorem matches_create (pid : Int) (sel : Bool) (now : UInt64) (id : Int) :
    (Ledger.empty.enter (id, now)).Matches sel (SyscallSeq.create pid sel now id) where
  holds := holds_create pid sel now id
  procCount _ := rfl
  procSd _ := rfl
  greatest := Or.inl ⟨rfl, rfl⟩
  least _ := Or.inl ⟨rfl, rfl⟩

theorem enter_totals (seq : SyscallSeq) (sel : Bool) (now : UInt64) (id : Int) :
    (seq.enter sel now id).procCount = seq.procCount ∧
    (seq.enter sel now id).procSd = seq.procSd ∧
    (seq.enter sel now id).maxDelay = seq.maxDelay ∧
    (seq.enter sel now id).minDelay = seq.minDelay := by
  by_cases h : seq.count < maxSyscallCount
  · rw [SyscallSeq.enter_of_lt seq sel now id h]
    exact ⟨rfl, rfl, rfl, rfl⟩
  · rw [SyscallSeq.enter_of_full seq sel now id h]
    exact ⟨rfl, rfl, rfl, rfl⟩

theorem Ledger.Matches.enter (h : g.Matches sel seq) (hidle : g.seen.pending = none)
    (hlt : seq.count < maxSyscallCount) (now : UInt64) (id : Int) :
    (g.enter (id, now)).Matches sel (seq.enter sel now id) := by
  obtain ⟨hcount, hsd, hmax, hmin⟩ := enter_totals seq sel now id
  have hold := h.holds
  rw [hidle] at hold
  refine ⟨hold.enter hlt now id, ?_, ?_, ?_, ?_⟩
  · rw [hcount]
    exact h.procCount
  · rw [hsd]
    exact h.procSd
  · rw [hmax]
    exact h.greatest
  · rw [hmin]
    exact h.least

/-- The call that returns, in an open batch. -/
theorem Ledger.Matches.charge (h : g.Matches sel seq) (hp : g.seen.pending = some a)
    (now : UInt64) :
    (g.exit .stays now).Matches sel (seq.charge (now - seq.enterTime)) := by
  have hold := h.holds
  rw [hp] at hold
  have hexit : g.exit .stays now = ⟨g.seen.step (.exit now), g.batch ++ [(a, now)], g.kept⟩ := by
    simp only [Ledger.exit, hp]
  have hdelays : delays (g.seen.step (.exit now)).completed =
      delays g.seen.completed ++ [now - a.2] := by
    rw [step_exit_completed hp, delays_append]
    rfl
  rw [hexit]
  refine ⟨?_, h.procCount, h.procSd, ?_, ?_⟩
  · show Holds sel (g.batch ++ [(a, now)]) (g.seen.step (.exit now)).pending _
    rw [step_exit_completed hp]
    exact hold.charge now
  · show Greatest (delays (g.seen.step (.exit now)).completed) _
    rw [hdelays, ← hold.enterTime a rfl]
    exact h.greatest.add _
  · show (∀ d ∈ delays (g.seen.step (.exit now)).completed, d ≠ 0) →
      Least (delays (g.seen.step (.exit now)).completed) _
    rw [hdelays]
    intro hpos
    have hold' : ∀ d ∈ delays g.seen.completed, d ≠ 0 :=
      fun d hd => hpos d (List.mem_append_left _ hd)
    rw [← hold.enterTime a rfl]
    exact (h.least hold').add hold' _

/-- A batch that is discarded leaves the extrema behind. -/
theorem Ledger.Matches.discard (h : g.Matches sel seq) (hp : g.seen.pending = some a)
    (now : UInt64) :
    (g.exit .discarded now).Matches sel (seq.charge (now - seq.enterTime)).reset := by
  have hcharged := h.charge hp now
  simp only [Ledger.exit, hp] at hcharged ⊢
  refine ⟨?_, hcharged.procCount, hcharged.procSd, hcharged.greatest, hcharged.least⟩
  show Holds sel [] (g.seen.step (.exit now)).pending _
  rw [step_exit_completed hp]
  exact holds_reset sel _

/-- The totals take in the batch. -/
theorem Ledger.Matches.total (h : g.Matches sel seq) (hp : g.seen.pending = none) :
    (sel = true → (seq.total sel).procCount = (g.kept ++ g.batch).length % 2 ^ 32) ∧
    (sel = true → (seq.total sel).procSd = delaySum (g.kept ++ g.batch)) ∧
    (seq.total sel).maxDelay = seq.maxDelay ∧ (seq.total sel).minDelay = seq.minDelay := by
  cases sel with
  | false => exact ⟨nofun, nofun, rfl, rfl⟩
  | true =>
    refine ⟨fun _ => ?_, fun _ => ?_, rfl, rfl⟩
    · show (seq.procCount + seq.count) % 2 ^ 32 = _
      rw [h.procCount rfl, h.holds.count, hp, List.length_append, Nat.mod_add_mod]
      rfl
    · show seq.procSd + seq.sumDelay = _
      rw [h.procSd rfl, h.holds.sumDelay, delaySum_append]

theorem exit_submitted (hp : g.seen.pending = some a) (now : UInt64) :
    g.exit .submitted now = { g.exit .stays now with
      batch := []
      kept := (g.exit .stays now).kept ++ (g.exit .stays now).batch } := by
  simp only [Ledger.exit, hp]

theorem exit_pending (hp : g.seen.pending = some a) (f : Fate) (now : UInt64) :
    (g.exit f now).seen = g.seen.step (.exit now) := by
  cases f <;> simp only [Ledger.exit, hp]

/-- A batch that is submitted is in the totals. -/
theorem Ledger.Matches.submit (h : g.Matches sel seq) (hp : g.seen.pending = some a)
    (now : UInt64) :
    (g.exit .submitted now).Matches sel
      ((seq.charge (now - seq.enterTime)).total sel).reset := by
  have hcharged := h.charge hp now
  have hidle : (g.exit .stays now).seen.pending = none := by
    rw [exit_pending hp, step_exit_completed hp]
  obtain ⟨hcount, hsd, hmax, hmin⟩ := hcharged.total hidle
  rw [exit_submitted hp]
  refine ⟨?_, hcount, hsd, ?_, ?_⟩
  · show Holds sel [] (g.exit .stays now).seen.pending _
    rw [hidle]
    exact holds_reset sel _
  · show Greatest (delays (g.exit .stays now).seen.completed) (SyscallSeq.total _ sel).maxDelay
    rw [hmax]
    exact hcharged.greatest
  · show _ → Least (delays (g.exit .stays now).seen.completed) (SyscallSeq.total _ sel).minDelay
    rw [hmin]
    exact hcharged.least

/-- What is sent of the thread, when its ledger was `g` before and is `g'` afterwards. -/
structure Sent (sel : Bool) (n : Nat) (g g' : Ledger) (b : List Call) (r : SyscallSeq) : Prop where
  kept : g'.kept = g.kept ++ b
  length : b.length = n
  batch : IsBatch sel b r
  procCount : sel = true → r.procCount = g'.kept.length % 2 ^ 32
  procSd : sel = true → r.procSd = delaySum g'.kept
  greatest : Greatest (delays g'.seen.completed) r.maxDelay
  least : (∀ d ∈ delays g'.seen.completed, d ≠ 0) → Least (delays g'.seen.completed) r.minDelay

theorem Ledger.Matches.sent (h : g.Matches sel seq) (hp : g.seen.pending = some a) (now : UInt64)
    (hfull : g.batch.length + 1 = n) (hn : n ≤ maxSyscallCount) (cur : Task) (mem : SyscallSeq) :
    Sent sel n g (g.exit .submitted now) (g.batch ++ [(a, now)])
      (((seq.charge (now - seq.enterTime)).total sel).fill sel cur mem) := by
  have hold := h.holds
  rw [hp] at hold
  have hlen : (g.batch ++ [(a, now)]).length = n := by
    rw [List.length_append, List.length_singleton, hfull]
  have hsub := h.submit hp now
  have hbatch := ((hold.charge now).total sel).isBatch (by rw [hlen]; exact hn) cur mem
  refine ⟨by simp only [Ledger.exit, hp], hlen, hbatch, fun hs => ?_, fun hs => ?_, hsub.greatest,
    hsub.least⟩
  · rw [← hsub.procCount hs]
    exact if_pos hs
  · rw [← hsub.procSd hs]
    exact if_pos hs

theorem tracks_empty (sel : Bool) (hn : 0 < n) : Ledger.empty.Tracks sel n none where
  absent _ := rfl
  begun seq h := by cases h
  agrees seq h := by cases h
  short := hn

theorem Ledger.Tracks.create (h : g.Tracks sel n none) (pid : Int) (now : UInt64) (id : Int) :
    (g.enter (id, now)).Tracks sel n (some (SyscallSeq.create pid sel now id)) := by
  have hempty := h.absent rfl
  have hshort := h.short
  rw [hempty] at hshort ⊢
  refine ⟨nofun, fun seq _ => ?_, fun seq he => ?_, hshort⟩
  · intro hnone
    have hp := congrArg Calls.pending hnone
    cases hp
  · cases he
    exact matches_create pid sel now id

theorem Ledger.Tracks.enter (h : g.Tracks sel n (some seq)) (hidle : g.seen.pending = none)
    (hn : n ≤ maxSyscallCount) (now : UInt64) (id : Int) :
    (g.enter (id, now)).Tracks sel n (some (seq.enter sel now id)) := by
  have hagrees := h.agrees seq rfl
  have hlt : seq.count < maxSyscallCount := by
    rw [hagrees.holds.count, hidle]
    exact Nat.lt_of_lt_of_le h.short hn
  refine ⟨nofun, fun seq _ => ?_, fun seq' he => ?_, h.short⟩
  · intro hnone
    have hp := congrArg Calls.pending hnone
    cases hp
  · cases he
    exact hagrees.enter hidle hlt now id

/-- After a return there is a completed call. -/
theorem Ledger.tracks_of_exit {f : Fate} {seq' : SyscallSeq} (hp : g.seen.pending = some a)
    (h : (g.exit f now).Matches sel seq') (hshort : (g.exit f now).batch.length < n) :
    (g.exit f now).Tracks sel n (some seq') := by
  refine ⟨nofun, fun seq _ => ?_, fun seq he => ?_, hshort⟩
  · rw [exit_pending hp, step_exit_completed hp]
    intro hnone
    have hnil : g.seen.completed ++ [(a, now)] = [] := congrArg Calls.completed hnone
    simp at hnil
  · cases he
    exact h

end Agreement

section Exit

variable {ro : Rodata} {s : State} {cur : Task} {now : UInt64} {slot : Option SyscallSeq}
variable {sel : Bool} {n : Nat} {g : Ledger} {seq : SyscallSeq} {a : Int × UInt64}

theorem fate_present (slot : Option SyscallSeq) (ht : traced ro s.scCtrlMap cur = true)
    (hl : s.procSyscall.lookup cur.pid = some seq) :
    fate ro s cur slot =
      if seq.count < toUnsigned s.scCtrlMap.syscalls then .stays
      else if dropped s cur then .discarded
      else if slot.isSome then .submitted
      else .stays := by
  unfold fate full
  rw [ht, hl]
  by_cases h : seq.count < toUnsigned s.scCtrlMap.syscalls <;> simp [h]

/-- A return, unless a reservation fails. -/
theorem Ledger.Tracks.exit (h : g.Tracks sel n (s.procSyscall.lookup cur.pid))
    (hl : s.procSyscall.lookup cur.pid = some seq) (hp : g.seen.pending = some a)
    (ht : traced ro s.scCtrlMap cur = true) (hn : n ≤ maxSyscallCount)
    (hlimit : toUnsigned s.scCtrlMap.syscalls = n)
    (hsel : selected s.scCtrlMap cur.pid cur.tgid = sel)
    (hslot : (full ro s cur && !dropped s cur && slot.isNone) = false) :
    (g.exit (fate ro s cur slot) now).Tracks sel n
        ((sysExit ro s cur now slot).1.procSyscall.lookup cur.pid) ∧
      ∀ r ∈ (sysExit ro s cur now slot).2, ∃ b,
        Sent sel n g (g.exit (fate ro s cur slot) now) b r := by
  rw [hl] at h
  have hagrees := h.agrees seq rfl
  have hshort := h.short
  have hcount : seq.count = g.batch.length + 1 := by
    rw [hagrees.holds.count, hp]
    rfl
  have hc := sysExit_present ro s cur now slot ht hl
  have hfate := fate_present slot ht hl
  have hfull : full ro s cur = !decide (seq.count < toUnsigned s.scCtrlMap.syscalls) := by
    unfold full
    rw [ht, hl]
    rfl
  have hnone : ∀ (g' : Ledger), ∀ r ∈ ([] : List SyscallSeq), ∃ b, Sent sel n g g' b r :=
    fun _ r hr => absurd hr List.not_mem_nil
  -- whichever of the targets has changed, the batch starts over
  have hdiscard : ∀ s' : State,
      ¬(seq.charge (now - seq.enterTime)).count < toUnsigned s.scCtrlMap.syscalls →
      dropped s cur = true →
      s'.procSyscall.lookup cur.pid =
        (s.put cur.pid (seq.charge (now - seq.enterTime)).reset).procSyscall.lookup cur.pid →
      (g.exit (fate ro s cur slot) now).Tracks sel n (s'.procSyscall.lookup cur.pid) := by
    intro s' hclosed hdrop hs'
    rw [SyscallSeq.charge_count] at hclosed
    rw [hs', State.put_lookup_self, hfate, if_neg hclosed, if_pos hdrop]
    apply Ledger.tracks_of_exit hp (hagrees.discard hp now)
    simp only [Ledger.exit, hp, List.length_nil]
    omega
  generalize sysExit ro s cur now slot = res at hc ⊢
  cases hc with
  | more hopen =>
    rw [SyscallSeq.charge_count] at hopen
    rw [hfate, if_pos hopen, State.put_lookup_self]
    refine ⟨Ledger.tracks_of_exit hp (hagrees.charge hp now) ?_, hnone _⟩
    simp only [Ledger.exit, hp, List.length_append, List.length_singleton]
    omega
  | dropPid hclosed hpid =>
    have hdrop : dropped s cur = true := by rw [dropped, hpid, Bool.true_or]
    exact ⟨hdiscard _ hclosed hdrop rfl, hnone _⟩
  | dropTgid hclosed hpid htgid =>
    have hdrop : dropped s cur = true := by rw [dropped, htgid, Bool.or_true]
    exact ⟨hdiscard _ hclosed hdrop rfl, hnone _⟩
  | noSlot hclosed hpid htgid hfail =>
    -- this is the reservation that fails
    rw [SyscallSeq.charge_count] at hclosed
    rw [hfull, dropped, hpid, htgid, hfail] at hslot
    simp [hclosed] at hslot
  | emit mem hclosed hpid htgid hmem =>
    rw [SyscallSeq.charge_count] at hclosed
    have hdrop : ¬dropped s cur = true := by
      rw [dropped, hpid, htgid]
      decide
    have hlast : g.batch.length + 1 = n := by omega
    rw [hfate, if_neg hclosed, if_neg hdrop, hmem, Option.isSome_some, if_pos rfl,
      State.put_lookup_self, hsel]
    refine ⟨Ledger.tracks_of_exit hp (hagrees.submit hp now) ?_, fun r hr => ?_⟩
    · simp only [Ledger.exit, hp, List.length_nil]
      omega
    · rw [List.mem_singleton.mp hr]
      exact ⟨_, hagrees.sent hp now hlast hn cur mem⟩

end Exit

section Run

variable (ro : Rodata) (c : ScCtrl) (tgidOf : Int → Int)

/-- A probe of a thread that stays in its thread group. -/
def Probing : Event → Prop
  | .sysEnter cur .. | .sysExit cur .. => cur.tgid = tgidOf cur.pid
  | .scCtrl _ | .schedProcessExit _ => False

instance : DecidablePred (Probing tgidOf)
  | .sysEnter cur .. | .sysExit cur .. => inferInstanceAs (Decidable (cur.tgid = tgidOf cur.pid))
  | .scCtrl _ | .schedProcessExit _ => isFalse id

/-- Threads whose entries and returns alternate, under one control value. -/
structure ProbeRun (tr : List Event) : Prop where
  scFunc : c.scFunc = true
  syscalls : 1 ≤ c.syscalls ∧ c.syscalls ≤ 50
  probing : ∀ e ∈ tr, Probing tgidOf e
  alternating : ∀ p, Alternating (view p) tr

/-- The probe was not turned away, and neither an update nor a reservation failed. -/
def Clean (s : State) : Event → Prop
  | .sysEnter cur _ _ room => stores ro s cur room = true
  | .sysExit cur _ slot =>
    (s.procSyscall.lookup cur.pid).isSome = true →
      traced ro s.scCtrlMap cur = true ∧ (full ro s cur && !dropped s cur && slot.isNone) = false
  | .scCtrl _ | .schedProcessExit _ => True

instance (s : State) : DecidablePred (Clean ro s)
  | .sysEnter _ _ _ _ => inferInstanceAs (Decidable (_ = true))
  | .sysExit _ _ _ => inferInstanceAs (Decidable (_ = true → _ ∧ _))
  | .scCtrl _ | .schedProcessExit _ => isTrue trivial

/-- The probes of the thread are clean. -/
def CleanFor (p : Int) (pre : List Event) (e : Event) : Prop :=
  (view p e).isSome = true → Clean ro ((machine ro c).exec pre) e

instance (p : Int) (pre : List Event) : DecidablePred (CleanFor ro c p pre) :=
  fun e => inferInstanceAs (Decidable ((view p e).isSome = true → _))

variable {ro c tgidOf} {p : Int} {pre tr : List Event} {e : Event}

theorem ProbeRun.restrict (h : ProbeRun c tgidOf tr) (hp : pre <+: tr) : ProbeRun c tgidOf pre where
  scFunc := h.scFunc
  syscalls := h.syscalls
  probing x hx := h.probing x (hp.subset hx)
  alternating p := (h.alternating p).restrict hp

theorem ProbeRun.of_snoc (h : ProbeRun c tgidOf (pre ++ [e])) : ProbeRun c tgidOf pre :=
  h.restrict (List.prefix_append pre [e])

theorem ProbeRun.last (h : ProbeRun c tgidOf (pre ++ [e])) : Probing tgidOf e :=
  h.probing e (List.mem_append_right _ (List.mem_singleton_self e))

theorem ProbeRun.toUnsigned (h : ProbeRun c tgidOf tr) : toUnsigned c.syscalls = batchSize c := by
  have hsys := h.syscalls
  unfold CpuSubsystem.toUnsigned batchSize
  omega

theorem ProbeRun.batchSize_le (h : ProbeRun c tgidOf tr) :
    0 < batchSize c ∧ batchSize c ≤ maxSyscallCount := by
  have hsys := h.syscalls
  have hmax : maxSyscallCount = 50 := rfl
  unfold batchSize
  omega

theorem ProbeRun.ctrl (ro : Rodata) (h : ProbeRun c tgidOf tr) :
    ((machine ro c).exec tr).scCtrlMap = c := by
  induction tr using List.reverseRecOn with
  | nil => rfl
  | append_singleton pre e ih =>
    have hpre := ih h.of_snoc
    rw [Machine.exec_snoc]
    cases e with
    | scCtrl c' => exact h.last.elim
    | sysEnter cur now id room =>
      exact (sysEnter_frame ro ((machine ro c).exec pre) cur now id room).1.trans hpre
    | sysExit cur now slot =>
      exact (sysExit_frame ro ((machine ro c).exec pre) cur now slot).1.trans hpre
    | schedProcessExit cur => exact h.last.elim

theorem ledger_snoc (pre : List Event) (e : Event) :
    ledger ro c p (pre ++ [e]) = (ledger ro c p pre).step ro p ((machine ro c).exec pre) e :=
  (machine ro c).ghost_snoc _ _ _ _

theorem ledger_enter (pre : List Event) (cur : Task) (now : UInt64) (id : Int) (room : Bool) :
    ledger ro c cur.pid (pre ++ [Event.sysEnter cur now id room]) =
      (ledger ro c cur.pid pre).enter (id, now) := by
  rw [ledger_snoc]
  exact if_pos rfl

theorem ledger_exit (pre : List Event) (cur : Task) (now : UInt64) (slot : Option SyscallSeq) :
    ledger ro c cur.pid (pre ++ [Event.sysExit cur now slot]) =
      (ledger ro c cur.pid pre).exit (fate ro ((machine ro c).exec pre) cur slot) now := by
  rw [ledger_snoc]
  exact if_pos rfl

/-- The events of other threads. -/
theorem ledger_skip (h : view p e = none) : ledger ro c p (pre ++ [e]) = ledger ro c p pre := by
  rw [ledger_snoc]
  cases e with
  | scCtrl c' => rfl
  | schedProcessExit cur => rfl
  | sysEnter cur now id room =>
    apply if_neg
    rintro rfl
    rw [view_enter_self] at h
    cases h
  | sysExit cur now slot =>
    apply if_neg
    rintro rfl
    rw [view_exit_self] at h
    cases h

/-- An event is seen of the thread if it is a probe of it. -/
theorem view_cases (p : Int) (e : Event) :
    view p e = none ∨ (∃ cur now id room, e = .sysEnter cur now id room ∧ cur.pid = p) ∨
      ∃ cur now slot, e = .sysExit cur now slot ∧ cur.pid = p := by
  cases e with
  | scCtrl c' => exact Or.inl rfl
  | schedProcessExit cur => exact Or.inl rfl
  | sysEnter cur now id room =>
    by_cases h : cur.pid = p
    · exact Or.inr (Or.inl ⟨cur, now, id, room, rfl, h⟩)
    · exact Or.inl (if_neg h)
  | sysExit cur now slot =>
    by_cases h : cur.pid = p
    · exact Or.inr (Or.inr ⟨cur, now, slot, rfl, h⟩)
    · exact Or.inl (if_neg h)

/-- The calls in the ledger are those that the probes show. -/
theorem ledger_seen (ro : Rodata) (c : ScCtrl) (p : Int) (tr : List Event) :
    (ledger ro c p tr).seen = calls (view p) tr := by
  induction tr using List.reverseRecOn with
  | nil => rfl
  | append_singleton pre e ih =>
    rcases view_cases p e with h | ⟨cur, now, id, room, rfl, rfl⟩ | ⟨cur, now, slot, rfl, rfl⟩
    · rw [ledger_skip h, calls_snoc_skip h]
      exact ih
    · rw [ledger_enter, calls_snoc (view_enter_self cur now id room), ← ih]
      rfl
    · rw [ledger_exit, calls_snoc (view_exit_self cur now slot), ← ih]
      cases hp : (ledger ro c cur.pid pre).seen.pending with
      | none => simp only [Ledger.exit, hp, Calls.step]
      | some a => rw [exit_pending hp]

/-- What was submitted and what is open are calls of the thread, in their order. -/
theorem ledger_sublist (ro : Rodata) (c : ScCtrl) (p : Int) (tr : List Event) :
    ((ledger ro c p tr).kept ++ (ledger ro c p tr).batch).Sublist
      (ledger ro c p tr).seen.completed := by
  induction tr using List.reverseRecOn with
  | nil => exact List.Sublist.refl _
  | append_singleton pre e ih =>
    rcases view_cases p e with h | ⟨cur, now, id, room, rfl, rfl⟩ | ⟨cur, now, slot, rfl, rfl⟩
    · rw [ledger_skip h]
      exact ih
    · rw [ledger_enter]
      exact ih
    · rw [ledger_exit]
      cases hp : (ledger ro c cur.pid pre).seen.pending with
      | none =>
        simp only [Ledger.exit, hp]
        exact ih
      | some a =>
        have hsnoc := ih.append (List.Sublist.refl [(a, now)])
        rw [List.append_assoc] at hsnoc
        rw [exit_pending hp, step_exit_completed hp]
        cases fate ro ((machine ro c).exec pre) cur slot with
        | stays =>
          simp only [Ledger.exit, hp]
          exact hsnoc
        | discarded =>
          simp only [Ledger.exit, hp, List.append_nil]
          exact (List.sublist_append_left _ _).trans hsnoc
        | submitted =>
          simp only [Ledger.exit, hp, List.append_nil]
          exact hsnoc

/-- A step leaves the entries of the threads alone whose probe it is not. -/
theorem step_lookup_other (s : State) (he : Probing tgidOf e) (h : view p e = none) :
    (step ro s e).1.procSyscall.lookup p = s.procSyscall.lookup p := by
  cases e with
  | scCtrl c' => exact he.elim
  | schedProcessExit cur => exact he.elim
  | sysEnter cur now id room =>
    apply (sysEnter_frame ro s cur now id room).2.2.2
    rintro rfl
    rw [view_enter_self] at h
    cases h
  | sysExit cur now slot =>
    apply (sysExit_frame ro s cur now slot).2.1
    rintro rfl
    rw [view_exit_self] at h
    cases h

section Step

variable {cur : Task} {now : UInt64} {id : Int} {room : Bool} {slot : Option SyscallSeq}

/-- The ledger of the thread agrees with its entry. -/
def Tracked (ro : Rodata) (c : ScCtrl) (tgidOf : Int → Int) (p : Int) (tr : List Event) : Prop :=
  (ledger ro c p tr).Tracks (selected c p (tgidOf p)) (batchSize c)
    (((machine ro c).exec tr).procSyscall.lookup p)

theorem Tracked.enter (hrun : ProbeRun c tgidOf (pre ++ [Event.sysEnter cur now id room]))
    (h : Tracked ro c tgidOf cur.pid pre)
    (hstores : stores ro ((machine ro c).exec pre) cur room = true) :
    Tracked ro c tgidOf cur.pid (pre ++ [Event.sysEnter cur now id room]) := by
  have hcur : cur.tgid = tgidOf cur.pid := hrun.last
  have hctrl := hrun.of_snoc.ctrl ro
  rw [stores, Bool.and_eq_true] at hstores
  obtain ⟨ht, hacc⟩ := hstores
  unfold Tracked at h ⊢
  rw [ledger_enter, Machine.exec_snoc]
  show Ledger.Tracks _ _ _ ((sysEnter ro ((machine ro c).exec pre) cur now id room
    ).procSyscall.lookup cur.pid)
  cases hl : ((machine ro c).exec pre).procSyscall.lookup cur.pid with
  | none =>
    rw [hl] at h
    rw [sysEnter_absent ro _ cur now id room ht hl, BpfMap.update_of_accepts _ hacc,
      BpfMap.lookup_store_self, hctrl, hcur]
    exact h.create cur.pid now id
  | some seq =>
    rw [hl] at h
    have hidle : (ledger ro c cur.pid pre).seen.pending = none := by
      rw [ledger_seen]
      exact (hrun.alternating cur.pid).idle (view_enter_self cur now id room)
    rw [sysEnter_present ro _ cur now id room ht hl, State.put_lookup_self, hctrl, hcur]
    exact h.enter hidle hrun.batchSize_le.2 now id

theorem Tracked.exit (hrun : ProbeRun c tgidOf (pre ++ [Event.sysExit cur now slot]))
    (h : Tracked ro c tgidOf cur.pid pre)
    (hclean : Clean ro ((machine ro c).exec pre) (.sysExit cur now slot)) :
    Tracked ro c tgidOf cur.pid (pre ++ [Event.sysExit cur now slot]) ∧
    ∀ r ∈ (machine ro c).emits pre (.sysExit cur now slot), ∃ b,
      Sent (selected c cur.pid (tgidOf cur.pid)) (batchSize c) (ledger ro c cur.pid pre)
        (ledger ro c cur.pid (pre ++ [Event.sysExit cur now slot])) b r := by
  have hcur : cur.tgid = tgidOf cur.pid := hrun.last
  have hctrl := hrun.of_snoc.ctrl ro
  unfold Tracked at h ⊢
  rw [ledger_exit, Machine.exec_snoc]
  show Ledger.Tracks _ _ _ ((sysExit ro ((machine ro c).exec pre) cur now slot
    ).1.procSyscall.lookup cur.pid) ∧
      ∀ r ∈ (sysExit ro ((machine ro c).exec pre) cur now slot).2, _
  cases hl : ((machine ro c).exec pre).procSyscall.lookup cur.pid with
  | none =>
    rw [hl] at h
    have hsame : ∀ f, (ledger ro c cur.pid pre).exit f now = ledger ro c cur.pid pre := by
      intro f
      rw [h.absent rfl]
      rfl
    rw [sysExit_absent ro _ cur now slot hl, hsame, hl]
    exact ⟨h, fun r hr => absurd hr List.not_mem_nil⟩
  | some seq =>
    obtain ⟨ht, hslot⟩ := hclean (by rw [hl]; rfl)
    -- the thread has an entry, hence probes before this one
    obtain ⟨a, hp⟩ : ∃ a, (ledger ro c cur.pid pre).seen.pending = some a := by
      rw [ledger_seen]
      rcases (hrun.alternating cur.pid).returns (view_exit_self cur now slot) with hp | hnil
      · exact hp
      · have hbegun := h.begun seq hl
        rw [ledger_seen, calls, hnil] at hbegun
        exact absurd rfl hbegun
    have hlimit : toUnsigned ((machine ro c).exec pre).scCtrlMap.syscalls = batchSize c := by
      rw [hctrl]
      exact hrun.toUnsigned
    have hsel : selected ((machine ro c).exec pre).scCtrlMap cur.pid cur.tgid =
        selected c cur.pid (tgidOf cur.pid) := by
      rw [hctrl, hcur]
    exact h.exit hl hp ht hrun.batchSize_le.2 hlimit hsel hslot

end Step

/-- After clean probes the ledger of the thread agrees with its entry. -/
theorem tracked (ro : Rodata) (hrun : ProbeRun c tgidOf tr)
    (hclean : Throughout (CleanFor ro c p) tr) : Tracked ro c tgidOf p tr := by
  induction tr using List.reverseRecOn with
  | nil => exact tracks_empty _ hrun.batchSize_le.1
  | append_singleton pre e ih =>
    have hpre := ih hrun.of_snoc hclean.of_snoc
    have hlast := hclean.last
    rcases view_cases p e with h | ⟨cur, now, id, room, rfl, rfl⟩ | ⟨cur, now, slot, rfl, rfl⟩
    · unfold Tracked at hpre ⊢
      rw [ledger_skip h, Machine.exec_snoc]
      show Ledger.Tracks _ _ _ ((step ro ((machine ro c).exec pre) e).1.procSyscall.lookup p)
      rw [step_lookup_other _ hrun.last h]
      exact hpre
    · exact hpre.enter hrun (hlast (by rw [view_enter_self]; rfl))
    · exact (hpre.exit hrun (hlast (by rw [view_exit_self]; rfl))).1

/-- Only returns send something, and it is about the thread that returns. -/
theorem exit_of_emits {r : SyscallSeq} (hr : r ∈ (machine ro c).emits pre e) :
    ∃ cur now slot, e = .sysExit cur now slot ∧ r.pid = cur.pid ∧ r.tgid = cur.tgid := by
  cases e with
  | scCtrl c' => exact absurd hr List.not_mem_nil
  | schedProcessExit cur => exact absurd hr List.not_mem_nil
  | sysEnter cur now id room => exact absurd hr List.not_mem_nil
  | sysExit cur now slot =>
    have hpid := (sysExit_frame ro ((machine ro c).exec pre) cur now slot).2.2 r hr
    exact ⟨cur, now, slot, rfl, hpid, sysExit_tgid ro _ cur now slot hr⟩

/-- What is sent of a thread whose probes were clean. -/
theorem sent_of_clean (ro : Rodata) (hrun : ProbeRun c tgidOf (pre ++ [e])) {r : SyscallSeq}
    (hr : r ∈ (machine ro c).emits pre e)
    (hclean : Throughout (CleanFor ro c r.pid) (pre ++ [e])) :
    r.tgid = tgidOf r.pid ∧ ∃ b,
      Sent (selected c r.pid (tgidOf r.pid)) (batchSize c) (ledger ro c r.pid pre)
        (ledger ro c r.pid (pre ++ [e])) b r := by
  obtain ⟨cur, now, slot, rfl, hpid, htgid⟩ := exit_of_emits hr
  rw [htgid, hpid]
  rw [hpid] at hclean
  have hpre := tracked ro hrun.of_snoc hclean.of_snoc
  exact ⟨hrun.last, (hpre.exit hrun (hclean.last (by rw [view_exit_self]; rfl))).2 r hr⟩

end Run

end CpuSubsystem.SyscallImage
