import CpuSubsystem.Lib.Clock
import CpuSubsystem.Lib.Latest
import CpuSubsystem.ProcImage.SyscallImage.Probes

/-!
# No loss and no reordering under a constant policy

Every thread's completed calls are cut into batches of `syscalls` calls, and the emitted events of
the thread are these batches in order.  Only the first batch that a selected thread completes after
a target was set is left out.
-/

namespace CpuSubsystem.SyscallImage

/-- The probes of the thread `p`: the id and the time at the entry of a call, the time at its
return. -/
def view (p : Int) : Event → Option (Probe (Int × UInt64) UInt64)
  | .sysEnter cur now id _ => if cur.pid = p then some (.enter (id, now)) else none
  | .sysExit cur now _ => if cur.pid = p then some (.exit now) else none
  | _ => none

/-- A completed call: id, time of entry, time of return. -/
abbrev Call := (Int × UInt64) × UInt64

def delaySum (b : List Call) : UInt64 := (b.map fun a => a.2 - a.1.2).sum

/-- The ids of calls as the program stores them. -/
def idsOf (b : List Call) : List Int := b.map fun a => toInt a.1.1

/-- An `int` holds the id of the call. -/
def Fits (a : Call) : Prop := -2 ^ 31 ≤ a.1.1 ∧ a.1.1 < 2 ^ 31

theorem idsOf_of_fits {b : List Call} (h : ∀ a ∈ b, Fits a) : idsOf b = b.map fun a => a.1.1 :=
  List.map_congr_left fun a ha => toInt_eq_self (h a ha).1 (h a ha).2

/-- On a clock that does not go backwards the sum is the time that the calls took. -/
theorem delaySum_toNat {b : List Call} (h : Sequential (spans Prod.snd id b)) :
    (delaySum b).toNat = spent (spans Prod.snd id b) := by
  rw [← h.sum_toNat]
  simp [delaySum, spans, Span.delay, Function.comp_def]

/-- The event `r` reports the calls `b`. -/
structure IsBatch (sel : Bool) (b : List Call) (r : SyscallSeq) : Prop where
  count : r.count = b.length
  sumDelay : r.sumDelay = delaySum b
  recorded : sel = true → r.recorded = idsOf b
  ids : sel = true → (∀ a ∈ b, Fits a) → r.recorded = b.map fun a => a.1.1
  spent : Sequential (spans Prod.snd id b) → r.sumDelay.toNat = spent (spans Prod.snd id b)

section Entry

/-- The entry `seq` holds the calls `tail` of the open batch and the call in progress. -/
structure Holds (sel : Bool) (tail : List Call) (pending : Option (Int × UInt64))
    (seq : SyscallSeq) : Prop where
  count : seq.count = tail.length + pending.toList.length
  sumDelay : seq.sumDelay = delaySum tail
  recorded : sel = true → seq.recorded = idsOf tail ++ pending.toList.map fun a => toInt a.1
  enterTime : ∀ a, pending = some a → seq.enterTime = a.2

variable {sel : Bool} {tail : List Call} {seq : SyscallSeq}

theorem holds_create (pid : Int) (sel : Bool) (now : UInt64) (id : Int) :
    Holds sel [] (some (id, now)) (SyscallSeq.create pid sel now id) where
  count := rfl
  sumDelay := rfl
  recorded hsel := by
    rw [hsel, SyscallSeq.create_recorded]
    rfl
  enterTime a ha := by
    cases ha
    rfl

theorem Holds.enter (h : Holds sel tail none seq) (hlt : seq.count < maxSyscallCount)
    (now : UInt64) (id : Int) : Holds sel tail (some (id, now)) (seq.enter sel now id) where
  count := by
    rw [SyscallSeq.enter_count seq sel now id hlt, h.count]
    rfl
  sumDelay := by rw [SyscallSeq.enter_sumDelay, h.sumDelay]
  recorded hsel := by
    rw [hsel, SyscallSeq.enter_recorded seq now id hlt, h.recorded hsel]
    simp
  enterTime a ha := by
    cases ha
    exact seq.enter_enterTime sel now id

theorem Holds.charge {a : Int × UInt64} (h : Holds sel tail (some a) seq) (now : UInt64) :
    Holds sel (tail ++ [(a, now)]) none (seq.charge (now - seq.enterTime)) where
  count := by
    rw [SyscallSeq.charge_count, h.count]
    simp
  sumDelay := by
    rw [SyscallSeq.charge_sumDelay, h.sumDelay, h.enterTime a rfl]
    simp [delaySum]
  recorded hsel := by
    rw [SyscallSeq.charge_recorded, h.recorded hsel]
    simp [idsOf]
  enterTime b hb := by cases hb

theorem Holds.total {pending : Option (Int × UInt64)} (h : Holds sel tail pending seq)
    (k : Bool) : Holds sel tail pending (seq.total k) where
  count := by rw [SyscallSeq.total_count, h.count]
  sumDelay := by rw [SyscallSeq.total_sumDelay, h.sumDelay]
  recorded hsel := by rw [SyscallSeq.total_recorded, h.recorded hsel]
  enterTime a ha := by rw [SyscallSeq.total_enterTime, h.enterTime a ha]

theorem holds_reset (sel : Bool) (seq : SyscallSeq) : Holds sel [] none seq.reset where
  count := rfl
  sumDelay := rfl
  recorded _ := by rw [SyscallSeq.reset_recorded]; rfl
  enterTime a ha := by cases ha

/-- A closed batch is copied to the event as it stands. -/
theorem Holds.isBatch (h : Holds sel tail none seq) (hle : tail.length ≤ maxSyscallCount)
    (cur : Task) (mem : SyscallSeq) : IsBatch sel tail (seq.fill sel cur mem) := by
  have hcount : seq.count ≤ maxSyscallCount := by
    rw [h.count]
    exact hle
  have hrec : sel = true → (seq.fill sel cur mem).recorded = idsOf tail := by
    intro hsel
    rw [SyscallSeq.fill_recorded seq sel cur mem hcount, h.recorded hsel]
    simp
  have hsum : (seq.fill sel cur mem).sumDelay = delaySum tail := by
    rw [SyscallSeq.fill_sumDelay, h.sumDelay]
  refine ⟨?_, hsum, hrec, ?_, ?_⟩
  · rw [SyscallSeq.fill_count, h.count]
    rfl
  · intro hsel hfits
    rw [hrec hsel, idsOf_of_fits hfits]
  · intro hseq
    rw [hsum, delaySum_toNat hseq]

end Entry

section Policy

variable (ro : Rodata) (c : ScCtrl) (tgidOf : Int → Int)

/-- The batch size. -/
def batchSize (c : ScCtrl) : Nat := c.syscalls.toNat

def targetSet (c : ScCtrl) : Bool := c.targetTgid != -1 || c.targetPid != -1

/-- The thread is not one of the ignored process. -/
def threadTraced (p : Int) : Bool := c.enableMyproc || tgidOf p != ro.ignoreTgid

/-- An event of a run in which every update and every reservation succeeds and no thread exits. -/
def Steady : Event → Prop
  | .sysEnter cur _ _ room => cur.tgid = tgidOf cur.pid ∧ room = true
  | .sysExit cur _ slot => cur.tgid = tgidOf cur.pid ∧ slot.isSome = true
  | _ => False

structure SteadyRun (tr : List Event) : Prop where
  scFunc : c.scFunc = true
  isContainer : c.isContainer = false
  syscalls : 1 ≤ c.syscalls ∧ c.syscalls ≤ 50
  steady : ∀ e ∈ tr, Steady tgidOf e
  alternating : ∀ p, Alternating (view p) tr

/-- The selected thread whose return has just completed a batch. -/
def fillsBatch (pre : List Event) : Option Int :=
  match pre.getLast? with
  | some (.sysExit cur _ _) =>
    if threadTraced ro c tgidOf cur.pid = true ∧ selected c cur.pid (tgidOf cur.pid) = true ∧
        batchSize c ≤ (calls (view cur.pid) pre).completed.length
      then some cur.pid else none
  | _ => none

/-- The selected thread that completed the first batch of the run. -/
def firstFull (tr : List Event) : Option Int := earliest (fillsBatch ro c tgidOf) tr

/-- What is reported of the completed batches `bs` of `p`, when `first` completed the first one. -/
def reported (first : Option Int) (p : Int) (bs : List (List Call)) : List (List Call) :=
  if targetSet c = true ∧ first = some p then bs.drop 1 else bs

end Policy

section Account

/-- The account of the thread `p`: its calls are the batches `bs` and the open batch `tail`. -/
structure Account (c : ScCtrl) (sel : Bool) (p : Int) (first : Option Int)
    (cs : Calls (Int × UInt64) UInt64) (out : List SyscallSeq) (entry : Option SyscallSeq)
    (bs : List (List Call)) (tail : List Call) : Prop where
  completed : cs.completed = bs.flatten ++ tail
  full : ∀ b ∈ bs, b.length = batchSize c
  short : tail.length < batchSize c
  emitted : List.Forall₂ (IsBatch sel) (reported c first p bs) out
  absent : entry = none → cs = ⟨none, []⟩
  present : ∀ seq, entry = some seq → Holds sel tail cs.pending seq
  starter : first = some p → bs ≠ [] ∧ sel = true
  started : sel = true → bs ≠ [] → first.isSome = true

variable {c : ScCtrl} {sel : Bool} {p : Int} {first : Option Int}
  {cs : Calls (Int × UInt64) UInt64} {out : List SyscallSeq} {entry : Option SyscallSeq}
  {bs : List (List Call)} {tail : List Call}

theorem Account.empty (p : Int) (sel : Bool) (hn : 0 < batchSize c) :
    Account c sel p none ⟨none, []⟩ [] none [] [] where
  completed := rfl
  full b hb := by cases hb
  short := hn
  emitted := by
    rw [reported, if_neg (fun h => by cases h.2)]
    exact List.Forall₂.nil
  absent _ := rfl
  present seq h := by cases h
  starter h := by cases h
  started _ h := absurd rfl h

/-- Another thread may complete the first batch of the run. -/
theorem Account.frame (h : Account c sel p first cs out entry bs tail) {g : Option Int}
    (hg : g ≠ some p) : Account c sel p (first.or g) cs out entry bs tail := by
  have hfirst : first.or g = some p ↔ first = some p := by
    cases first with
    | none => simp [hg]
    | some q => simp
  refine { h with emitted := ?_, starter := ?_, started := ?_ }
  · have hr : reported c (first.or g) p bs = reported c first p bs := by
      simp only [reported, hfirst]
    rw [hr]
    exact h.emitted
  · intro hp
    exact h.starter (hfirst.mp hp)
  · intro hsel hne
    rw [Option.isSome_or, h.started hsel hne, Bool.true_or]

/-- The first entry probe of the thread. -/
theorem Account.create (h : Account c sel p first cs out none bs tail) (now : UInt64) (id : Int) :
    Account c sel p first (cs.step (.enter (id, now))) out
      (some (SyscallSeq.create p sel now id)) bs tail := by
  -- without an entry there were no calls
  have htail : tail = [] := by
    have hnil := h.completed
    rw [h.absent rfl] at hnil
    exact (List.append_eq_nil_iff.mp hnil.symm).2
  refine { h with absent := ?_, present := ?_ }
  · intro he
    cases he
  · intro seq he
    cases he
    rw [htail]
    exact holds_create p sel now id

/-- A later entry probe. -/
theorem Account.enter {seq : SyscallSeq} (h : Account c sel p first cs out (some seq) bs tail)
    (hidle : cs.pending = none) (hn : batchSize c ≤ maxSyscallCount) (now : UInt64) (id : Int) :
    Account c sel p first (cs.step (.enter (id, now))) out (some (seq.enter sel now id)) bs
      tail := by
  have hold := h.present seq rfl
  rw [hidle] at hold
  -- an open batch is shorter than the array of the entry
  have hlt : seq.count < maxSyscallCount := by
    rw [hold.count]
    exact Nat.lt_of_lt_of_le h.short hn
  refine { h with absent := ?_, present := ?_ }
  · intro he
    cases he
  · intro seq' he
    cases he
    exact hold.enter hlt now id

theorem step_exit_completed {a : Int × UInt64} (hp : cs.pending = some a) (now : UInt64) :
    cs.step (.exit now) = ⟨none, cs.completed ++ [(a, now)]⟩ := by
  simp only [Calls.step, hp]

/-- The return of a call that leaves the batch open. -/
theorem Account.more {seq : SyscallSeq} (h : Account c sel p first cs out (some seq) bs tail)
    {a : Int × UInt64} (hp : cs.pending = some a) (now : UInt64)
    (hlt : tail.length + 1 < batchSize c) :
    Account c sel p first (cs.step (.exit now)) out
      (some (seq.charge (now - seq.enterTime))) bs (tail ++ [(a, now)]) := by
  have hold := h.present seq rfl
  rw [hp] at hold
  refine { h with completed := ?_, short := ?_, absent := ?_, present := ?_ }
  · rw [step_exit_completed hp, h.completed, List.append_assoc]
  · rw [List.length_append, List.length_singleton]
    exact hlt
  · intro he
    cases he
  · intro seq' he
    cases he
    rw [step_exit_completed hp]
    exact hold.charge now

/-- The return of a call that completes a batch: the entry starts over, and the events of the
thread become `out'`. -/
theorem Account.close {seq : SyscallSeq} (h : Account c sel p first cs out (some seq) bs tail)
    {a : Int × UInt64} (hp : cs.pending = some a) (now : UInt64)
    (hfull : tail.length + 1 = batchSize c) (seq' : SyscallSeq) {out' : List SyscallSeq}
    (hout : List.Forall₂ (IsBatch sel)
      (reported c (first.or (if sel = true then some p else none)) p (bs ++ [tail ++ [(a, now)]]))
      out') :
    Account c sel p (first.or (if sel = true then some p else none)) (cs.step (.exit now)) out'
      (some seq'.reset) (bs ++ [tail ++ [(a, now)]]) [] := by
  refine ⟨?_, ?_, ?_, hout, ?_, ?_, ?_, ?_⟩
  · rw [step_exit_completed hp, h.completed]
    simp
  · intro b hb
    rcases List.mem_append.mp hb with hb | hb
    · exact h.full b hb
    · rw [List.mem_singleton.mp hb, List.length_append, List.length_singleton]
      exact hfull
  · rw [List.length_nil, ← hfull]
    exact Nat.succ_pos _
  · intro he
    cases he
  · intro seq'' he
    cases he
    rw [step_exit_completed hp]
    exact holds_reset sel seq'
  · intro hf
    refine ⟨by simp, ?_⟩
    -- this batch may be the first one, or it comes after that of another thread
    cases first with
    | none =>
      by_contra hsel
      rw [if_neg hsel] at hf
      cases hf
    | some q => exact (h.starter hf).2
  · intro hsel _
    rw [if_pos hsel]
    cases first <;> rfl

/-- The first batch of a selected thread after a target was set is completed, not reported. -/
theorem Account.drop {seq : SyscallSeq} (h : Account c sel p none cs out (some seq) bs tail)
    {a : Int × UInt64} (hp : cs.pending = some a) (now : UInt64)
    (hfull : tail.length + 1 = batchSize c) (hsel : sel = true) (hset : targetSet c = true)
    (seq' : SyscallSeq) :
    Account c sel p (some p) (cs.step (.exit now)) out (some seq'.reset)
      (bs ++ [tail ++ [(a, now)]]) [] := by
  -- nobody has completed a batch, hence not this thread either
  have hbs : bs = [] := by
    by_contra hne
    have hsome := h.started hsel hne
    cases hsome
  have hnil : out = [] := by
    have hout := h.emitted
    rw [hbs, reported, if_neg (fun hc => by cases hc.2)] at hout
    exact List.forall₂_nil_left_iff.mp hout
  have hfirst : (none : Option Int).or (if sel = true then some p else none) = some p := by
    rw [if_pos hsel, Option.none_or]
  have hout : List.Forall₂ (IsBatch sel) (reported c (some p) p (bs ++ [tail ++ [(a, now)]]))
      out := by
    rw [hbs, hnil, reported, if_pos ⟨hset, rfl⟩]
    exact List.Forall₂.nil
  rw [← hfirst] at hout ⊢
  exact h.close hp now hfull seq' hout

/-- Every other batch is reported. -/
theorem Account.emit {seq : SyscallSeq} (h : Account c sel p first cs out (some seq) bs tail)
    {a : Int × UInt64} (hp : cs.pending = some a) (now : UInt64)
    (hfull : tail.length + 1 = batchSize c) (hn : batchSize c ≤ maxSyscallCount)
    (hkeep : ¬(sel = true ∧ targetSet c = true ∧ first = none)) (cur : Task) (mem : SyscallSeq) :
    Account c sel p (first.or (if sel = true then some p else none)) (cs.step (.exit now))
      (out ++ [((seq.charge (now - seq.enterTime)).total sel).fill sel cur mem])
      (some ((seq.charge (now - seq.enterTime)).total sel).reset)
      (bs ++ [tail ++ [(a, now)]]) [] := by
  have hold := h.present seq rfl
  rw [hp] at hold
  have hbatch : IsBatch sel (tail ++ [(a, now)])
      (((seq.charge (now - seq.enterTime)).total sel).fill sel cur mem) := by
    refine ((hold.charge now).total sel).isBatch ?_ cur mem
    rw [List.length_append, List.length_singleton, hfull]
    exact hn
  apply h.close hp now hfull
  have hr : reported c (first.or (if sel = true then some p else none)) p
      (bs ++ [tail ++ [(a, now)]]) = reported c first p bs ++ [tail ++ [(a, now)]] := by
    unfold reported
    -- the first batch was dropped long ago, or is not to be dropped
    by_cases hf : first = some p
    · have hne := (h.starter hf).1
      rw [hf, Option.some_or]
      split
      · rw [List.drop_append_of_le_length (List.length_pos_iff.mpr hne)]
      · rfl
    · have hg : ¬(targetSet c = true ∧
          first.or (if sel = true then some p else none) = some p) := by
        rintro ⟨hset, hor⟩
        cases first with
        | none =>
          apply hkeep
          refine ⟨?_, hset, rfl⟩
          by_contra hsel
          rw [if_neg hsel] at hor
          cases hor
        | some q => exact hf hor
      rw [if_neg hg, if_neg (fun hc => hf hc.2)]
  rw [hr]
  exact List.rel_append h.emitted (List.Forall₂.cons hbatch List.Forall₂.nil)

/-- Whether the return that comes now completes a batch of a selected thread. -/
theorem Account.fills_of_full (h : Account c sel p first cs out entry bs tail)
    {a : Int × UInt64} (hp : cs.pending = some a) (now : UInt64)
    (hfull : tail.length + 1 = batchSize c) :
    batchSize c ≤ (cs.step (.exit now)).completed.length := by
  rw [step_exit_completed hp, h.completed]
  simp only [List.length_append, List.length_singleton]
  omega

theorem Account.started_of_fills (h : Account c sel p first cs out entry bs tail)
    {a : Int × UInt64} (hp : cs.pending = some a) (now : UInt64)
    (hlt : tail.length + 1 < batchSize c) (hsel : sel = true)
    (hfills : batchSize c ≤ (cs.step (.exit now)).completed.length) : first.isSome = true := by
  apply h.started hsel
  intro hbs
  rw [step_exit_completed hp, h.completed, hbs] at hfills
  simp only [List.flatten_nil, List.nil_append, List.length_append,
    List.length_singleton] at hfills
  omega

end Account

section Run

variable (ro : Rodata) (c : ScCtrl) (tgidOf : Int → Int)

/-- The policy switch is noted once a selected thread has completed a batch. -/
structure SwitchNoted (c : ScCtrl) (first : Option Int) (s : State) : Prop where
  pid : c.targetTgid = -1 → s.preTargetPid = if first.isSome = true then c.targetPid else -1
  tgid : c.targetTgid ≠ -1 → s.preTargetTgid = if first.isSome = true then c.targetTgid else -1

/-- A batch is dropped exactly when it is the first one that a selected thread completes. -/
theorem SwitchNoted.retargeted {c : ScCtrl} {first : Option Int} {s : State}
    (h : SwitchNoted c first s) (hc : s.scCtrlMap = c) (cur : Task) :
    (retargetedPid s cur || retargetedTgid s cur) = true ↔
      selected c cur.pid cur.tgid = true ∧ targetSet c = true ∧ first = none := by
  have hpid := h.pid
  have htgid := h.tgid
  unfold retargetedPid retargetedTgid selected targetSet
  rw [hc]
  -- the old targets are still -1 until the first batch
  cases first with
  | none =>
    simp only [Option.isSome_none, Bool.false_eq_true, if_false] at hpid htgid
    by_cases ht : c.targetTgid = -1
    · rw [hpid ht]
      simp [ht]
      grind
    · rw [htgid ht]
      simp [ht]
      grind
  | some q =>
    simp only [Option.isSome_some, if_true] at hpid htgid
    by_cases ht : c.targetTgid = -1
    · rw [hpid ht]
      simp [ht]
    · rw [htgid ht]
      simp [ht]

theorem SwitchNoted.of_eq {c : ScCtrl} {first : Option Int} {s s' : State}
    (h : SwitchNoted c first s) (hp : s'.preTargetPid = s.preTargetPid)
    (ht : s'.preTargetTgid = s.preTargetTgid) : SwitchNoted c first s' :=
  ⟨fun hc => hp.trans (h.pid hc), fun hc => ht.trans (h.tgid hc)⟩

/-- Without a target there is nothing to note. -/
theorem SwitchNoted.of_unset {c : ScCtrl} {first : Option Int} {s : State}
    (h : SwitchNoted c first s) (hset : targetSet c = false) (first' : Option Int) :
    SwitchNoted c first' s := by
  simp only [targetSet, Bool.or_eq_false_iff, bne_eq_false_iff_eq] at hset
  refine ⟨fun hc => ?_, fun hc => absurd hset.1 hc⟩
  rw [h.pid hc, hset.2, ite_self, ite_self]

theorem SwitchNoted.of_kept {c : ScCtrl} {first : Option Int} {s : State} {sel : Bool} {p : Int}
    (h : SwitchNoted c first s) (hkeep : ¬(sel = true ∧ targetSet c = true ∧ first = none)) :
    SwitchNoted c (first.or (if sel = true then some p else none)) s := by
  by_cases hset : targetSet c = true
  · cases first with
    | none =>
      rw [if_neg (fun hsel => hkeep ⟨hsel, hset, rfl⟩)]
      exact h
    | some q => exact h
  · exact h.of_unset (Bool.eq_false_of_not_eq_true hset) _

structure Inv (tr : List Event) (s : State) : Prop where
  ctrl : s.scCtrlMap = c
  noted : SwitchNoted c (firstFull ro c tgidOf tr) s
  probed : ∀ p, (s.procSyscall.lookup p).isSome = true → tr.filterMap (view p) ≠ []
  accounts : ∀ p, threadTraced ro c tgidOf p = true → ∃ bs tail,
    Account c (selected c p (tgidOf p)) p (firstFull ro c tgidOf tr) (calls (view p) tr)
      (((machine ro c).emitted tr).filter fun r => r.pid = p) (s.procSyscall.lookup p) bs tail

variable {ro c tgidOf} {pre : List Event}

theorem SteadyRun.of_snoc {e : Event} (h : SteadyRun c tgidOf (pre ++ [e])) :
    SteadyRun c tgidOf pre :=
  ⟨h.scFunc, h.isContainer, h.syscalls, fun x hx => h.steady x (List.mem_append_left _ hx),
    fun p => (h.alternating p).of_snoc⟩

theorem SteadyRun.last {e : Event} (h : SteadyRun c tgidOf (pre ++ [e])) : Steady tgidOf e :=
  h.steady e (List.mem_append_right _ (List.mem_singleton_self e))

theorem SteadyRun.batchSize_le {tr : List Event} (h : SteadyRun c tgidOf tr) :
    batchSize c ≤ maxSyscallCount := by
  have hmax : maxSyscallCount = 50 := rfl
  have hsys := h.syscalls
  unfold batchSize
  omega

theorem SteadyRun.toUnsigned {tr : List Event} (h : SteadyRun c tgidOf tr) :
    toUnsigned c.syscalls = batchSize c := by
  have hsys := h.syscalls
  unfold CpuSubsystem.toUnsigned batchSize
  omega

theorem SteadyRun.traced (ro : Rodata) {tr : List Event} (h : SteadyRun c tgidOf tr) {cur : Task}
    (hcur : cur.tgid = tgidOf cur.pid) : traced ro c cur = threadTraced ro c tgidOf cur.pid := by
  unfold SyscallImage.traced threadTraced
  rw [h.scFunc, h.isContainer, hcur]
  simp

theorem fillsBatch_enter (cur : Task) (now : UInt64) (id : Int) (room : Bool) :
    fillsBatch ro c tgidOf (pre ++ [Event.sysEnter cur now id room]) = none := by
  unfold fillsBatch
  rw [List.getLast?_concat]

theorem fillsBatch_exit (cur : Task) (now : UInt64) (slot : Option SyscallSeq) :
    fillsBatch ro c tgidOf (pre ++ [Event.sysExit cur now slot]) =
      if threadTraced ro c tgidOf cur.pid = true ∧ selected c cur.pid (tgidOf cur.pid) = true ∧
          batchSize c ≤
            (calls (view cur.pid) (pre ++ [Event.sysExit cur now slot])).completed.length
        then some cur.pid else none := by
  unfold fillsBatch
  rw [List.getLast?_concat]

theorem view_enter_self (cur : Task) (now : UInt64) (id : Int) (room : Bool) :
    view cur.pid (.sysEnter cur now id room) = some (.enter (id, now)) :=
  if_pos rfl

theorem view_exit_self (cur : Task) (now : UInt64) (slot : Option SyscallSeq) :
    view cur.pid (.sysExit cur now slot) = some (.exit now) :=
  if_pos rfl

theorem view_enter_of_ne {cur : Task} {q : Int} (h : q ≠ cur.pid) (now : UInt64) (id : Int)
    (room : Bool) : view q (.sysEnter cur now id room) = none :=
  if_neg (Ne.symm h)

theorem view_exit_of_ne {cur : Task} {q : Int} (h : q ≠ cur.pid) (now : UInt64)
    (slot : Option SyscallSeq) : view q (.sysExit cur now slot) = none :=
  if_neg (Ne.symm h)

/-- The entries are those of threads that were seen, when a step changes only the entry of the
thread that it belongs to. -/
theorem probed_snoc {s s' : State} {e : Event} {cur : Task}
    (h : ∀ p, (s.procSyscall.lookup p).isSome = true → pre.filterMap (view p) ≠ [])
    (hview : (view cur.pid e).isSome = true)
    (hframe : ∀ p, p ≠ cur.pid → s'.procSyscall.lookup p = s.procSyscall.lookup p) (p : Int)
    (hp : (s'.procSyscall.lookup p).isSome = true) :
    (pre ++ [e]).filterMap (view p) ≠ [] := by
  obtain ⟨q, hq⟩ := Option.isSome_iff_exists.mp hview
  rw [List.filterMap_append]
  by_cases hc : p = cur.pid
  · rw [hc, List.filterMap_cons, hq]
    simp
  · rw [hframe p hc] at hp
    exact fun hnil => h p hp (List.append_eq_nil_iff.mp hnil).1

theorem Inv.enter {cur : Task} {now : UInt64} {id : Int} {room : Bool}
    (hrun : SteadyRun c tgidOf (pre ++ [Event.sysEnter cur now id room]))
    (h : Inv ro c tgidOf pre ((machine ro c).exec pre)) :
    Inv ro c tgidOf (pre ++ [Event.sysEnter cur now id room])
      (sysEnter ro ((machine ro c).exec pre) cur now id room) := by
  obtain ⟨hcur, hroom⟩ := hrun.last
  have hfirst : firstFull ro c tgidOf (pre ++ [Event.sysEnter cur now id room]) =
      firstFull ro c tgidOf pre := by
    rw [firstFull, earliest_snoc, fillsBatch_enter, Option.or_none]
    rfl
  have hemit : (machine ro c).emitted (pre ++ [Event.sysEnter cur now id room]) =
      (machine ro c).emitted pre := by
    rw [Machine.emitted_snoc]
    exact List.append_nil _
  generalize (machine ro c).exec pre = s at h ⊢
  obtain ⟨hctrl, hpre, hpre', hframe⟩ := sysEnter_frame ro s cur now id room
  refine ⟨hctrl.trans h.ctrl, ⟨?_, ?_⟩, ?_, ?_⟩
  · rw [hfirst, hpre]
    exact h.noted.pid
  · rw [hfirst, hpre']
    exact h.noted.tgid
  · refine probed_snoc h.probed ?_ hframe
    rw [view_enter_self]
    rfl
  · intro q hq
    obtain ⟨bs, tail, hacc⟩ := h.accounts q hq
    refine ⟨bs, tail, ?_⟩
    rw [hfirst, hemit]
    by_cases hqc : q = cur.pid
    · subst hqc
      have htr : SyscallImage.traced ro s.scCtrlMap cur = true := by
        rw [h.ctrl, hrun.traced ro hcur, hq]
      have hview := view_enter_self cur now id room
      rw [calls_snoc hview]
      cases hl : s.procSyscall.lookup cur.pid with
      | none =>
        rw [hl] at hacc
        rw [sysEnter_absent ro s cur now id room htr hl, hroom, BpfMap.update_true,
          BpfMap.lookup_store_self, h.ctrl, hcur]
        exact hacc.create now id
      | some seq =>
        rw [hl] at hacc
        rw [sysEnter_present ro s cur now id room htr hl, State.put_lookup_self, h.ctrl, hcur]
        exact hacc.enter ((hrun.alternating cur.pid).idle hview) hrun.batchSize_le now id
    · rw [calls_snoc_skip (view_enter_of_ne hqc now id room), hframe q hqc]
      exact hacc

theorem Inv.of_exit {cur : Task} {now : UInt64} {slot : Option SyscallSeq}
    {s' : State} {out : List SyscallSeq}
    (h : Inv ro c tgidOf pre ((machine ro c).exec pre))
    (hs : sysExit ro ((machine ro c).exec pre) cur now slot = (s', out))
    (hnoted : SwitchNoted c ((firstFull ro c tgidOf pre).or
      (fillsBatch ro c tgidOf (pre ++ [Event.sysExit cur now slot]))) s')
    (hown : threadTraced ro c tgidOf cur.pid = true → ∃ bs tail,
      Account c (selected c cur.pid (tgidOf cur.pid)) cur.pid ((firstFull ro c tgidOf pre).or
        (fillsBatch ro c tgidOf (pre ++ [Event.sysExit cur now slot])))
        ((calls (view cur.pid) pre).step (.exit now))
        ((((machine ro c).emitted pre).filter fun r => r.pid = cur.pid) ++ out)
        (s'.procSyscall.lookup cur.pid) bs tail) :
    Inv ro c tgidOf (pre ++ [Event.sysExit cur now slot]) s' := by
  have hfirst : firstFull ro c tgidOf (pre ++ [Event.sysExit cur now slot]) =
      (firstFull ro c tgidOf pre).or
        (fillsBatch ro c tgidOf (pre ++ [Event.sysExit cur now slot])) :=
    earliest_snoc _ _ _
  have hemit : (machine ro c).emitted (pre ++ [Event.sysExit cur now slot]) =
      (machine ro c).emitted pre ++ out := by
    rw [Machine.emitted_snoc]
    exact congrArg _ (congrArg Prod.snd hs)
  obtain ⟨hctrl, hframe, hpid⟩ := sysExit_frame ro ((machine ro c).exec pre) cur now slot
  rw [hs] at hctrl hframe hpid
  refine ⟨hctrl.trans h.ctrl, ?_, ?_, ?_⟩
  · rw [hfirst]
    exact hnoted
  · refine probed_snoc h.probed ?_ hframe
    rw [view_exit_self]
    rfl
  · intro q hq
    rw [hfirst, hemit, List.filter_append]
    by_cases hqc : q = cur.pid
    · subst hqc
      have hout : out.filter (fun r => r.pid = cur.pid) = out := by
        rw [List.filter_eq_self]
        exact fun r hr => decide_eq_true (hpid r hr)
      rw [hout, calls_snoc (view_exit_self cur now slot)]
      exact hown hq
    -- for another thread nothing is emitted, and its batches stay as they are
    · have hout : out.filter (fun r => r.pid = q) = [] := by
        rw [List.filter_eq_nil_iff]
        intro r hr hrq
        exact hqc ((of_decide_eq_true hrq).symm.trans (hpid r hr))
      have hfills : fillsBatch ro c tgidOf (pre ++ [Event.sysExit cur now slot]) ≠ some q := by
        rw [fillsBatch_exit]
        intro hf
        split at hf
        · exact hqc (Option.some.inj hf).symm
        · cases hf
      obtain ⟨bs, tail, hacc⟩ := h.accounts q hq
      refine ⟨bs, tail, ?_⟩
      rw [hout, List.append_nil, calls_snoc_skip (view_exit_of_ne hqc now slot), hframe q hqc]
      exact hacc.frame hfills

section Exit

variable {cur : Task} {now : UInt64} {slot : Option SyscallSeq}

theorem Inv.exit_untraced (h : Inv ro c tgidOf pre ((machine ro c).exec pre))
    (htr : SyscallImage.traced ro c cur = threadTraced ro c tgidOf cur.pid)
    (ht : threadTraced ro c tgidOf cur.pid = false) :
    Inv ro c tgidOf (pre ++ [Event.sysExit cur now slot])
      (sysExit ro ((machine ro c).exec pre) cur now slot).1 := by
  have hs := sysExit_untraced ro ((machine ro c).exec pre) cur now slot (by rw [h.ctrl, htr, ht])
  rw [hs]
  refine h.of_exit hs ?_ (fun hc => ?_)
  · rw [fillsBatch_exit, ht, if_neg (fun hc => by cases hc.1), Option.or_none]
    exact h.noted
  · rw [ht] at hc
    cases hc

/-- The return of a call that began before the first probe of its thread. -/
theorem Inv.exit_absent (h : Inv ro c tgidOf pre ((machine ro c).exec pre))
    (ht : threadTraced ro c tgidOf cur.pid = true)
    (hl : ((machine ro c).exec pre).procSyscall.lookup cur.pid = none) :
    Inv ro c tgidOf (pre ++ [Event.sysExit cur now slot])
      (sysExit ro ((machine ro c).exec pre) cur now slot).1 := by
  obtain ⟨bs, tail, hacc⟩ := h.accounts cur.pid ht
  have hs := sysExit_absent ro ((machine ro c).exec pre) cur now slot hl
  have hcs := hacc.absent hl
  have hstep : (calls (view cur.pid) pre).step (.exit now) = calls (view cur.pid) pre := by
    rw [hcs]
    rfl
  have hnone : fillsBatch ro c tgidOf (pre ++ [Event.sysExit cur now slot]) = none := by
    rw [fillsBatch_exit, calls_snoc (view_exit_self cur now slot), hstep, hcs, if_neg]
    rintro ⟨_, _, hlen⟩
    have hpos := Nat.lt_of_le_of_lt (Nat.zero_le _) hacc.short
    exact absurd hlen (Nat.not_le_of_lt hpos)
  rw [hs]
  refine h.of_exit hs ?_ (fun _ => ⟨bs, tail, ?_⟩)
  · rw [hnone, Option.or_none]
    exact h.noted
  · rw [hnone, Option.or_none, hstep, List.append_nil]
    exact hacc

/-- The thread has an entry, hence probes before this one: a call is pending. -/
theorem Inv.pending (hrun : SteadyRun c tgidOf (pre ++ [Event.sysExit cur now slot]))
    (h : Inv ro c tgidOf pre ((machine ro c).exec pre)) {seq : SyscallSeq}
    (hl : ((machine ro c).exec pre).procSyscall.lookup cur.pid = some seq) :
    ∃ a, (calls (view cur.pid) pre).pending = some a := by
  rcases (hrun.alternating cur.pid).returns (view_exit_self cur now slot) with hp | hnil
  · exact hp
  · exact absurd hnil (h.probed cur.pid (by rw [hl]; rfl))

theorem fillsBatch_traced (ht : threadTraced ro c tgidOf cur.pid = true) :
    fillsBatch ro c tgidOf (pre ++ [Event.sysExit cur now slot]) =
      if selected c cur.pid (tgidOf cur.pid) = true ∧
          batchSize c ≤ ((calls (view cur.pid) pre).step (.exit now)).completed.length
        then some cur.pid else none := by
  rw [fillsBatch_exit, calls_snoc (view_exit_self cur now slot), ht]
  simp only [true_and]

section Exit

variable {seq : SyscallSeq} {bs : List (List Call)} {tail : List Call} {a : Int × UInt64}

theorem fillsBatch_full (ht : threadTraced ro c tgidOf cur.pid = true)
    (hacc : Account c (selected c cur.pid (tgidOf cur.pid)) cur.pid (firstFull ro c tgidOf pre)
      (calls (view cur.pid) pre) (((machine ro c).emitted pre).filter fun r => r.pid = cur.pid)
      (some seq) bs tail)
    (hp : (calls (view cur.pid) pre).pending = some a) (hfull : tail.length + 1 = batchSize c) :
    fillsBatch ro c tgidOf (pre ++ [Event.sysExit cur now slot]) =
      if selected c cur.pid (tgidOf cur.pid) = true then some cur.pid else none := by
  rw [fillsBatch_traced ht]
  simp only [hacc.fills_of_full hp now hfull, and_true]

/-- The first batch of a new target is dropped, and the switch is noted. -/
theorem Inv.drop_first (h : Inv ro c tgidOf pre ((machine ro c).exec pre))
    (ht : threadTraced ro c tgidOf cur.pid = true)
    (hacc : Account c (selected c cur.pid (tgidOf cur.pid)) cur.pid (firstFull ro c tgidOf pre)
      (calls (view cur.pid) pre) (((machine ro c).emitted pre).filter fun r => r.pid = cur.pid)
      (some seq) bs tail)
    (hp : (calls (view cur.pid) pre).pending = some a) (hfull : tail.length + 1 = batchSize c)
    (hnew : selected c cur.pid (tgidOf cur.pid) = true ∧ targetSet c = true ∧
      firstFull ro c tgidOf pre = none) {s' : State}
    (hs : sysExit ro ((machine ro c).exec pre) cur now slot = (s', []))
    (hput : s'.procSyscall.lookup cur.pid = some (seq.charge (now - seq.enterTime)).reset)
    (hdone : SwitchNoted c (some cur.pid) s') :
    Inv ro c tgidOf (pre ++ [Event.sysExit cur now slot]) s' := by
  obtain ⟨hsel, hset, hfirst⟩ := hnew
  have hsome : (firstFull ro c tgidOf pre).or
      (fillsBatch ro c tgidOf (pre ++ [Event.sysExit cur now slot])) = some cur.pid := by
    rw [fillsBatch_full ht hacc hp hfull, hfirst, if_pos hsel, Option.none_or]
  rw [hfirst] at hacc
  refine h.of_exit hs ?_ (fun _ => ⟨bs ++ [tail ++ [(a, now)]], [], ?_⟩)
  · rw [hsome]
    exact hdone
  · rw [hsome, List.append_nil, hput]
    exact hacc.drop hp now hfull hsel hset _

end Exit

theorem Inv.exit_present (hrun : SteadyRun c tgidOf (pre ++ [Event.sysExit cur now slot]))
    (h : Inv ro c tgidOf pre ((machine ro c).exec pre))
    (ht : threadTraced ro c tgidOf cur.pid = true) {seq : SyscallSeq}
    (hl : ((machine ro c).exec pre).procSyscall.lookup cur.pid = some seq) :
    Inv ro c tgidOf (pre ++ [Event.sysExit cur now slot])
      (sysExit ro ((machine ro c).exec pre) cur now slot).1 := by
  obtain ⟨hcur, hslot⟩ := hrun.last
  obtain ⟨bs, tail, hacc⟩ := h.accounts cur.pid ht
  rw [hl] at hacc
  have htr := hrun.traced ro hcur
  have hnot := h.noted.retargeted h.ctrl cur
  obtain ⟨a, hp⟩ := h.pending hrun hl
  have hold := hacc.present seq rfl
  rw [hp] at hold
  have hcount := (hold.charge now).count
  simp only [Option.toList_none, List.length_nil, Nat.add_zero, List.length_append,
    List.length_singleton] at hcount
  have hclose : ¬(seq.charge (now - seq.enterTime)).count <
      toUnsigned ((machine ro c).exec pre).scCtrlMap.syscalls → tail.length + 1 = batchSize c := by
    intro hclosed
    rw [h.ctrl, hrun.toUnsigned, hcount] at hclosed
    have hshort := hacc.short
    omega
  have hc := sysExit_present ro ((machine ro c).exec pre) cur now slot
    (by rw [h.ctrl, htr, ht]) hl
  rw [hcur] at hnot
  generalize hs : sysExit ro ((machine ro c).exec pre) cur now slot = res at hc ⊢
  cases hc with
  | more hopen =>
    rw [h.ctrl, hrun.toUnsigned, hcount] at hopen
    have hsame : (firstFull ro c tgidOf pre).or
        (fillsBatch ro c tgidOf (pre ++ [Event.sysExit cur now slot])) =
          firstFull ro c tgidOf pre := by
      rw [fillsBatch_traced ht]
      split
      · rename_i hf
        have hsome := hacc.started_of_fills hp now hopen hf.1 hf.2
        exact Option.or_of_isSome hsome
      · exact Option.or_none
    refine h.of_exit hs ?_ (fun _ => ⟨bs, tail ++ [(a, now)], ?_⟩)
    · rw [hsame]
      exact h.noted.of_eq rfl rfl
    · rw [hsame, List.append_nil, State.put_lookup_self]
      exact hacc.more hp now hopen
  | dropPid hclosed hpid =>
    have hnew := hnot.mp (by rw [hpid, Bool.true_or])
    apply h.drop_first ht hacc hp (hclose hclosed) hnew hs (State.put_lookup_self _ _ _)
    refine ⟨fun _ => congrArg ScCtrl.targetPid h.ctrl, fun hne => absurd ?_ hne⟩
    simp only [retargetedPid, h.ctrl, Bool.and_eq_true, beq_iff_eq] at hpid
    exact hpid.1.1
  | dropTgid hclosed hpid htgid =>
    have hnew := hnot.mp (by rw [htgid, Bool.or_true])
    apply h.drop_first ht hacc hp (hclose hclosed) hnew hs (State.put_lookup_self _ _ _)
    refine ⟨fun heq => ?_, fun _ => congrArg ScCtrl.targetTgid h.ctrl⟩
    simp only [retargetedTgid, h.ctrl, heq, bne_self_eq_false, Bool.false_and] at htgid
    cases htgid
  | noSlot _ _ _ hnone =>
    rw [hnone] at hslot
    cases hslot
  | emit mem hclosed hpid htgid _ =>
    have hfull := hclose hclosed
    have hkeep : ¬(selected c cur.pid (tgidOf cur.pid) = true ∧ targetSet c = true ∧
        firstFull ro c tgidOf pre = none) := by
      rw [← hnot, hpid, htgid]
      decide
    refine h.of_exit hs ?_ (fun _ => ⟨bs ++ [tail ++ [(a, now)]], [], ?_⟩)
    · rw [fillsBatch_full ht hacc hp hfull]
      exact (h.noted.of_kept hkeep).of_eq rfl rfl
    · rw [fillsBatch_full ht hacc hp hfull, State.put_lookup_self, h.ctrl, hcur]
      exact hacc.emit hp now hfull hrun.batchSize_le hkeep cur mem

theorem Inv.exit (hrun : SteadyRun c tgidOf (pre ++ [Event.sysExit cur now slot]))
    (h : Inv ro c tgidOf pre ((machine ro c).exec pre)) :
    Inv ro c tgidOf (pre ++ [Event.sysExit cur now slot])
      (sysExit ro ((machine ro c).exec pre) cur now slot).1 := by
  cases ht : threadTraced ro c tgidOf cur.pid with
  | false => exact h.exit_untraced (hrun.traced ro hrun.last.1) ht
  | true =>
    cases hl : ((machine ro c).exec pre).procSyscall.lookup cur.pid with
    | none => exact h.exit_absent ht hl
    | some seq => exact Inv.exit_present hrun h ht hl

end Exit

theorem SteadyRun.inv (ro : Rodata) {tr : List Event} (hrun : SteadyRun c tgidOf tr) :
    Inv ro c tgidOf tr ((machine ro c).exec tr) := by
  refine (machine ro c).invariant (fun _ _ h => h.of_snoc) ?_ ?_ tr hrun
  · have hpos : 0 < batchSize c := by
      have hsys := hrun.syscalls
      unfold batchSize
      omega
    refine ⟨rfl, ⟨fun _ => rfl, fun _ => rfl⟩, ?_, ?_⟩
    · intro p hp
      cases hp
    · intro p _
      exact ⟨[], [], Account.empty p _ hpos⟩
  · intro pre e hpre h
    cases e with
    | scCtrl c' => exact hpre.last.elim
    | sysEnter cur now id room => exact Inv.enter hpre h
    | sysExit cur now slot => exact Inv.exit hpre h
    | schedProcessExit cur => exact hpre.last.elim

end Run

/-- The completed calls of a thread are batches of `batchSize c` calls and a shorter tail; the
events of the thread report these batches in order, one each, all but the one that a new target
costs.  On a clock that does not go backwards the calls of a batch follow one another. -/
theorem batches_reported (ro : Rodata) (c : ScCtrl) (tgidOf : Int → Int) (tr : List Event)
    (hrun : SteadyRun c tgidOf tr) (p : Int) (hp : threadTraced ro c tgidOf p = true) :
    ∃ bs tail,
      (calls (view p) tr).completed = bs.flatten ++ tail ∧
      (∀ b ∈ bs, b.length = batchSize c) ∧ tail.length < batchSize c ∧
      List.Forall₂ (IsBatch (selected c p (tgidOf p)))
        (reported c (firstFull ro c tgidOf tr) p bs)
        (((machine ro c).emitted tr).filter fun r => r.pid = p) ∧
      (firstFull ro c tgidOf tr = some p → bs ≠ []) ∧
      (Monotonic Prod.snd id (view p) tr → ∀ b ∈ bs, Sequential (spans Prod.snd id b)) := by
  obtain ⟨bs, tail, hacc⟩ := (hrun.inv ro).accounts p hp
  refine ⟨bs, tail, hacc.completed, hacc.full, hacc.short, hacc.emitted,
    fun hf => (hacc.starter hf).1, fun hclock b hb => ?_⟩
  have hsub : b.Sublist (calls (view p) tr).completed := by
    rw [hacc.completed]
    exact (List.sublist_flatten_of_mem hb).trans (List.sublist_append_left _ _)
  exact (calls_sequential hclock).sublist (hsub.map _)

section Sample

/-- Thread 5 of process 4, targeted, with batches of two calls. -/
def sampleCtrl : ScCtrl where
  scFunc := true
  enableMyproc := false
  isContainer := false
  targetPid := 5
  targetTgid := -1
  syscalls := 2

def sampleTask : Task := ⟨5, 4, none⟩

def sampleCalls : List Event :=
  [.sysExit sampleTask 90 (some .zero),
    .sysEnter sampleTask 100 0 true, .sysExit sampleTask 107 (some .zero),
    .sysEnter sampleTask 110 1 true, .sysExit sampleTask 112 (some .zero),
    .sysEnter sampleTask 120 202 true, .sysExit sampleTask 150 (some .zero),
    .sysEnter sampleTask 160 3 true, .sysExit sampleTask 165 (some .zero),
    .sysEnter sampleTask 170 35 true]

theorem sampleCalls_steady : SteadyRun sampleCtrl (fun _ => 4) sampleCalls where
  scFunc := rfl
  isContainer := rfl
  syscalls := by decide
  steady e he := by
    simp only [sampleCalls, List.mem_cons, List.not_mem_nil, or_false] at he
    rcases he with h | h | h | h | h | h | h | h | h | h <;> subst h <;> exact ⟨rfl, rfl⟩
  alternating p := by
    by_cases hp : p = 5
    · subst hp
      decide
    · have hne : ¬sampleTask.pid = p := fun h => hp h.symm
      simp [Alternating, sampleCalls, view, hne]

theorem batches_reported_sample :
    ∃ bs tail,
      (calls (view 5) sampleCalls).completed = bs.flatten ++ tail ∧
      (∀ b ∈ bs, b.length = 2) ∧ tail.length < 2 ∧
      List.Forall₂ (IsBatch true)
        (reported sampleCtrl (firstFull ⟨1, []⟩ sampleCtrl (fun _ => 4) sampleCalls) 5 bs)
        (((machine ⟨1, []⟩ sampleCtrl).emitted sampleCalls).filter fun r => r.pid = 5) ∧
      (firstFull ⟨1, []⟩ sampleCtrl (fun _ => 4) sampleCalls = some 5 → bs ≠ []) ∧
      (Monotonic Prod.snd id (view 5) sampleCalls → ∀ b ∈ bs, Sequential (spans Prod.snd id b)) :=
  batches_reported ⟨1, []⟩ sampleCtrl (fun _ => 4) sampleCalls sampleCalls_steady 5 (by decide)

end Sample

end CpuSubsystem.SyscallImage
