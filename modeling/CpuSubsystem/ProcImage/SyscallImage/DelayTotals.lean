import CpuSubsystem.ProcImage.SyscallImage.Ledger
import CpuSubsystem.ProcImage.SyscallImage.Table

/-!
# What the totals are totals of

Beside the program runs a book of the calls whose delays it adds: for every thread those in
`sum_delay`, in `proc_sd` and in the extrema, and for every record that is sent those of its batch.
The sums agree with the book as long as the entries are seen, and a call is in a sum once as long as
no batch is added to `proc_sd` again after its reservation failed.
-/

namespace CpuSubsystem.SyscallImage

/-- A return at which a delay is taken: the place of the call's entry in the run, and the times of
its two ends. -/
structure Charge where
  entry : Nat
  enter : UInt64
  exit : UInt64
deriving DecidableEq

def Charge.delay (x : Charge) : UInt64 := x.exit - x.enter

def sumOf (l : List Charge) : UInt64 := (l.map Charge.delay).sum

/-- The calls behind `sum_delay`, `proc_sd`, and `max_delay` and `min_delay`. -/
structure Charges where
  batch : List Charge
  total : List Charge
  extrema : List Charge

namespace Charges

def empty : Charges := ⟨[], [], []⟩

/-- Beside `SyscallSeq.charge`. -/
def add (a : Charges) (x : Charge) : Charges :=
  { a with batch := a.batch ++ [x], extrema := a.extrema ++ [x] }

/-- Beside `SyscallSeq.total`. -/
def take (a : Charges) (sel : Bool) : Charges :=
  if sel then { a with total := a.total ++ a.batch } else a

/-- Beside `SyscallSeq.reset`. -/
def reset (a : Charges) : Charges := { a with batch := [] }

end Charges

/-- A record that is sent: whether its thread was selected, and the calls when it was filled in. -/
structure Sending where
  record : SyscallSeq
  sel : Bool
  charges : Charges

structure Books where
  threads : Int → Charges
  sent : List Sending

def Books.empty : Books := ⟨fun _ => .empty, []⟩

/-- `sys_exit` adds the open batch to the totals of the thread. -/
def takes (ro : Rodata) (s : State) (cur : Task) : Bool :=
  full ro s cur && !dropped s cur && selected s.scCtrlMap cur.pid cur.tgid

/-- The book after a return from the call that was entered as event `i` at time `t`. -/
def Books.exit (ro : Rodata) (g : Books) (s : State) (cur : Task) (now : UInt64)
    (slot : Option SyscallSeq) (i : Nat) (t : UInt64) : Books :=
  let a := ((g.threads cur.pid).add ⟨i, t, now⟩).take (takes ro s cur)
  { threads := Function.update g.threads cur.pid
      (if fate ro s cur slot = .stays then a else a.reset)
    sent := g.sent ++ (sysExit ro s cur now slot).2.map fun r =>
      ⟨r, selected s.scCtrlMap cur.pid cur.tgid, a⟩ }

def Books.step (ro : Rodata) (c : ScCtrl) (pre : List Event) (g : Books) : Event → Books
  | .sysExit cur now slot =>
    match chargedDelay ro ((machine ro c).exec pre) cur now, callInFlight cur.pid pre with
    | some _, some (i, t) => g.exit ro ((machine ro c).exec pre) cur now slot i t
    | _, _ => g
  | .schedProcessExit cur =>
    if ((machine ro c).exec pre).scCtrlMap.scFunc then
      { g with threads := Function.update g.threads cur.pid .empty }
    else g
  | .sysEnter .. | .scCtrl _ => g

def books (ro : Rodata) (c : ScCtrl) : List Event → Books :=
  remember (Books.step ro c) Books.empty

/-- Whether `proc_sd` has the delays of the open batch already. -/
def noteTaken (ro : Rodata) (g : Int → Bool) (s : State) : Event → Int → Bool
  | .sysExit cur _ slot =>
    Function.update g cur.pid
      (if fate ro s cur slot = .stays then g cur.pid || takes ro s cur else false)
  | .schedProcessExit cur =>
    if s.scCtrlMap.scFunc then Function.update g cur.pid false else g
  | .sysEnter .. | .scCtrl _ => g

def taken (ro : Rodata) (c : ScCtrl) : List Event → Int → Bool :=
  (machine ro c).ghost (fun _ => false) (noteTaken ro)

/-- A batch is added to `proc_sd` that is not in it. -/
def TakenOnce (ro : Rodata) (c : ScCtrl) (pre : List Event) : Event → Prop
  | .sysExit cur _ _ =>
    takes ro ((machine ro c).exec pre) cur = true → taken ro c pre cur.pid = false
  | _ => True

/-! ## What the book says -/

/-- The call returned in the run, in the incarnation of `p` in which it was entered. -/
def Charged (p : Int) (tr : List Event) (x : Charge) : Prop :=
  ∃ pre cur slot, cur.pid = p ∧ pre ++ [.sysExit cur x.exit slot] <+: tr ∧
    callInFlight p pre = some (x.entry, x.enter)

def Once (l : List Charge) : Prop := (l.map Charge.entry).Nodup

/-- Calls of `p`, none of them twice. -/
structure CallsOf (p : Int) (tr : List Event) (l : List Charge) : Prop where
  charged : ∀ x ∈ l, Charged p tr x
  once : Once l

structure Charges.CallsOf (p : Int) (tr : List Event) (a : Charges) : Prop where
  batch : SyscallImage.CallsOf p tr a.batch
  total : SyscallImage.CallsOf p tr a.total
  extrema : SyscallImage.CallsOf p tr a.extrema

/-- The numbers are those of the delays of the calls; the total is that of a selected thread. -/
structure Charges.Behind (sel : Bool) (a : Charges) (seq : SyscallSeq) : Prop where
  sumDelay : seq.sumDelay = sumOf a.batch
  procSd : sel = true → seq.procSd = sumOf a.total
  maxDelay : seq.maxDelay = (a.extrema.map Charge.delay).foldl keepMax 0
  minDelay : seq.minDelay = (a.extrema.map Charge.delay).foldl keepMin 0

/-- The totals over all threads are those of calls, none of them twice. -/
structure SystemRight (tr : List Event) (env : Env) : Prop where
  sumDelay : ∃ l, (∀ x ∈ l, ∃ p, Charged p tr x) ∧ Once l ∧ env.sumDelay = sumOf l
  maxDelay : env.maxDelay = 0 ∨ ∃ p x, Charged p tr x ∧ env.maxDelay = x.delay
  minDelay : env.minDelay = 0 ∨ ∃ p x, Charged p tr x ∧ env.minDelay = x.delay

/-- All totals of the run: of the threads, of the records that are sent, and of a reader that gets
some of these. -/
structure SumsRight (ro : Rodata) (c : ScCtrl) (tr : List Event) : Prop where
  threads : ∀ p seq, ((machine ro c).exec tr).procSyscall.lookup p = some seq →
    ((books ro c tr).threads p).Behind true seq
  calls : ∀ p, ((books ro c tr).threads p).CallsOf p tr
  emitted : (books ro c tr).sent.map Sending.record = (machine ro c).emitted tr
  records : ∀ s ∈ (books ro c tr).sent, s.charges.Behind s.sel s.record ∧
    s.charges.CallsOf s.record.pid tr
  apart : Once ((books ro c tr).sent.flatMap fun s => s.charges.batch)
  system : ∀ rs env, (rs.map Prod.snd).Sublist ((machine ro c).emitted tr) →
    printAll Env.initial rs = .ok env → SystemRight tr env

section Calls

variable {p q : Int} {pre tr : List Event} {x : Charge} {l l' : List Charge}

theorem Charged.mono (h : Charged p pre x) (hp : pre <+: tr) : Charged p tr x := by
  obtain ⟨pre', cur, slot, hcur, hpre, hcall⟩ := h
  exact ⟨pre', cur, slot, hcur, hpre.trans hp, hcall⟩

/-- A call belongs to one thread. -/
theorem Charged.pid {y : Charge} (h : Charged p tr x) (h' : Charged q tr y)
    (heq : x.entry = y.entry) : p = q := by
  obtain ⟨pre, cur, slot, -, hp, hcall⟩ := h
  obtain ⟨pre', cur', slot', -, hp', hcall'⟩ := h'
  rw [heq] at hcall
  exact callInFlight_pid ((List.prefix_append _ _).trans hp) ((List.prefix_append _ _).trans hp')
    hcall hcall'

/-- The call that returns next has not returned. -/
theorem Charged.fresh (h : Charged p pre x) {cur : Task} {i : Nat} {t : UInt64}
    (hcall : callInFlight cur.pid pre = some (i, t)) : x.entry ≠ i := by
  obtain ⟨pre', cur', slot, rfl, hp, hcall'⟩ := h
  exact callInFlight_fresh hp hcall' hcall

theorem once_append :
    Once (l ++ l') ↔ Once l ∧ Once l' ∧ ∀ x ∈ l, ∀ y ∈ l', x.entry ≠ y.entry := by
  simp [Once, List.nodup_append]

theorem callsOf_nil (p : Int) (tr : List Event) : CallsOf p tr [] :=
  ⟨fun _ h => absurd h List.not_mem_nil, List.nodup_nil⟩

theorem CallsOf.mono (h : CallsOf p pre l) (hp : pre <+: tr) : CallsOf p tr l :=
  ⟨fun x hx => (h.charged x hx).mono hp, h.once⟩

theorem CallsOf.append (h : CallsOf p tr l) (h' : CallsOf p tr l')
    (hapart : ∀ x ∈ l, ∀ y ∈ l', x.entry ≠ y.entry) : CallsOf p tr (l ++ l') where
  charged x hx := (List.mem_append.mp hx).elim (h.charged x) (h'.charged x)
  once := once_append.mpr ⟨h.once, h'.once, hapart⟩

theorem CallsOf.snoc (h : CallsOf p tr l) (hx : Charged p tr x)
    (hfresh : ∀ y ∈ l, y.entry ≠ x.entry) : CallsOf p tr (l ++ [x]) := by
  apply h.append ⟨List.forall_mem_singleton.mpr hx, List.nodup_singleton _⟩
  intro y hy z hz
  rw [List.mem_singleton.mp hz]
  exact hfresh y hy

theorem sumOf_append (l l' : List Charge) : sumOf (l ++ l') = sumOf l + sumOf l' := by
  rw [sumOf, List.map_append, List.sum_append]
  rfl

end Calls

/-! ## One thread -/

section Thread

variable {p : Int} {pre tr : List Event} {sent sent' : List Charge} {b sel : Bool} {a : Charges}
  {x : Charge} {seq : SyscallSeq}

/-- The book of a thread beside the batches that were sent: `b` says whether `proc_sd` has the
batch. -/
structure Charges.Sound (p : Int) (tr : List Event) (sent : List Charge) (b : Bool) (a : Charges) :
    Prop where
  calls : a.CallsOf p tr
  unsent : ∀ x ∈ sent, ∀ y ∈ a.batch, x.entry ≠ y.entry
  untaken : b = false → ∀ x ∈ a.total, ∀ y ∈ a.batch, x.entry ≠ y.entry

theorem Charges.sound_empty (p : Int) (tr : List Event) (sent : List Charge) (b : Bool) :
    Charges.empty.Sound p tr sent b where
  calls := ⟨callsOf_nil p tr, callsOf_nil p tr, callsOf_nil p tr⟩
  unsent _ _ _ hy := absurd hy List.not_mem_nil
  untaken _ _ _ _ hy := absurd hy List.not_mem_nil

theorem Charges.Sound.mono (h : a.Sound p pre sent b) (hp : pre <+: tr) : a.Sound p tr sent b :=
  ⟨⟨h.calls.batch.mono hp, h.calls.total.mono hp, h.calls.extrema.mono hp⟩, h.unsent, h.untaken⟩

/-- Another call of the thread. -/
theorem Charges.Sound.add (h : a.Sound p pre sent b) (hp : pre <+: tr) (hx : Charged p tr x)
    (hfresh : ∀ q y, Charged q pre y → y.entry ≠ x.entry)
    (hsent : ∀ y ∈ sent, ∃ q, Charged q pre y) : (a.add x).Sound p tr sent b where
  calls :=
    ⟨(h.calls.batch.mono hp).snoc hx fun y hy => hfresh p y (h.calls.batch.charged y hy),
      h.calls.total.mono hp,
      (h.calls.extrema.mono hp).snoc hx fun y hy => hfresh p y (h.calls.extrema.charged y hy)⟩
  unsent y hy z hz := by
    rcases List.mem_append.mp hz with hz | hz
    · exact h.unsent y hy z hz
    · obtain ⟨q, hq⟩ := hsent y hy
      rw [List.mem_singleton.mp hz]
      exact hfresh q y hq
  untaken hb y hy z hz := by
    rcases List.mem_append.mp hz with hz | hz
    · exact h.untaken hb y hy z hz
    · rw [List.mem_singleton.mp hz]
      exact hfresh p y (h.calls.total.charged y hy)

/-- The batch goes into the total, if it is not there. -/
theorem Charges.Sound.take (h : a.Sound p tr sent b) (hb : sel = true → b = false) :
    (a.take sel).Sound p tr sent (b || sel) := by
  cases sel with
  | false => rwa [Bool.or_false]
  | true =>
    refine ⟨⟨h.calls.batch, ?_, h.calls.extrema⟩, h.unsent, fun hfalse => ?_⟩
    · exact h.calls.total.append h.calls.batch (h.untaken (hb rfl))
    · rw [Bool.or_true] at hfalse
      cases hfalse

theorem Charges.Sound.reset (h : a.Sound p tr sent b) (sent' : List Charge) :
    a.reset.Sound p tr sent' false where
  calls := ⟨callsOf_nil p tr, h.calls.total, h.calls.extrema⟩
  unsent _ _ _ hy := absurd hy List.not_mem_nil
  untaken _ _ _ _ hy := absurd hy List.not_mem_nil

/-- Other threads send their calls. -/
theorem Charges.Sound.frame (h : a.Sound p tr sent b)
    (hother : ∀ x ∈ sent', ∃ q, q ≠ p ∧ Charged q tr x) : a.Sound p tr (sent ++ sent') b where
  calls := h.calls
  unsent y hy z hz := by
    rcases List.mem_append.mp hy with hy | hy
    · exact h.unsent y hy z hz
    · obtain ⟨q, hq, hcharged⟩ := hother y hy
      exact fun heq => hq (hcharged.pid (h.calls.batch.charged z hz) heq)
  untaken := h.untaken

theorem Charges.behind_create (pid : Int) (sel sel' : Bool) (now : UInt64) (id : Int) :
    Charges.empty.Behind sel (SyscallSeq.create pid sel' now id) :=
  ⟨rfl, fun _ => rfl, rfl, rfl⟩

theorem Charges.Behind.enter (h : a.Behind true seq) (sel : Bool) (now : UInt64) (id : Int) :
    a.Behind true (seq.enter sel now id) := by
  obtain ⟨-, hsd, hmax, hmin⟩ := enter_totals seq sel now id
  refine ⟨?_, fun hsel => ?_, ?_, ?_⟩
  · rw [SyscallSeq.enter_sumDelay]
    exact h.sumDelay
  · rw [hsd]
    exact h.procSd hsel
  · rw [hmax]
    exact h.maxDelay
  · rw [hmin]
    exact h.minDelay

theorem Charges.Behind.add (h : a.Behind true seq) (x : Charge) :
    (a.add x).Behind true (seq.charge x.delay) where
  sumDelay := by
    rw [SyscallSeq.charge_sumDelay, h.sumDelay]
    show _ = sumOf (a.batch ++ [x])
    rw [sumOf_append]
    simp [sumOf]
  procSd := h.procSd
  maxDelay := by
    show keepMax seq.maxDelay x.delay = ((a.extrema ++ [x]).map Charge.delay).foldl keepMax 0
    rw [List.map_append, List.foldl_append, h.maxDelay]
    rfl
  minDelay := by
    show keepMin seq.minDelay x.delay = ((a.extrema ++ [x]).map Charge.delay).foldl keepMin 0
    rw [List.map_append, List.foldl_append, h.minDelay]
    rfl

theorem Charges.Behind.take (h : a.Behind true seq) (sel : Bool) :
    (a.take sel).Behind true (seq.total sel) := by
  cases sel with
  | false => exact h
  | true =>
    refine ⟨h.sumDelay, fun _ => ?_, h.maxDelay, h.minDelay⟩
    show seq.procSd + seq.sumDelay = sumOf (a.total ++ a.batch)
    rw [sumOf_append, h.procSd rfl, h.sumDelay]

theorem Charges.Behind.reset (h : a.Behind true seq) : a.reset.Behind true seq.reset :=
  ⟨rfl, h.procSd, h.maxDelay, h.minDelay⟩

theorem Charges.Behind.fill (h : a.Behind true seq) (sel : Bool) (cur : Task) (mem : SyscallSeq) :
    a.Behind sel (seq.fill sel cur mem) where
  sumDelay := h.sumDelay
  procSd hsel := (if_pos hsel).trans (h.procSd rfl)
  maxDelay := h.maxDelay
  minDelay := h.minDelay

@[simp] theorem Charges.take_batch (a : Charges) (sel : Bool) : (a.take sel).batch = a.batch := by
  cases sel <;> rfl

end Thread

section Exit

variable {ro : Rodata} {s : State} {cur : Task} {now : UInt64} {slot : Option SyscallSeq}
  {seq : SyscallSeq} {a : Charges} {x : Charge}

theorem full_present (ht : traced ro s.scCtrlMap cur = true)
    (hl : s.procSyscall.lookup cur.pid = some seq) :
    full ro s cur = !decide (seq.count < toUnsigned s.scCtrlMap.syscalls) := by
  unfold full
  rw [ht, hl]
  rfl

variable (slot) in
/-- The entry and the record after a return, beside the book. -/
theorem exit_behind (ht : traced ro s.scCtrlMap cur = true)
    (hl : s.procSyscall.lookup cur.pid = some seq) (h : a.Behind true seq)
    (hx : x.delay = now - seq.enterTime) :
    (∃ seq', (sysExit ro s cur now slot).1.procSyscall.lookup cur.pid = some seq' ∧
      (if fate ro s cur slot = .stays then (a.add x).take (takes ro s cur)
        else ((a.add x).take (takes ro s cur)).reset).Behind true seq') ∧
    ((sysExit ro s cur now slot).2 = [] ∨
      ∃ r, (sysExit ro s cur now slot).2 = [r] ∧ fate ro s cur slot = .submitted ∧
        r.pid = cur.pid ∧ ((a.add x).take (takes ro s cur)).Behind
          (selected s.scCtrlMap cur.pid cur.tgid) r) := by
  have hc := sysExit_present ro s cur now slot ht hl
  have hfate := fate_present slot ht hl
  have hfull := full_present ht hl
  have hadd := h.add x
  rw [hx] at hadd
  have hopen : seq.count < toUnsigned s.scCtrlMap.syscalls → takes ro s cur = false := by
    intro hlt
    rw [takes, hfull, decide_eq_true hlt]
    rfl
  have hdrop : dropped s cur = true → takes ro s cur = false := by
    intro hd
    rw [takes, hd, Bool.not_true, Bool.and_false, Bool.false_and]
  have hkept : ¬seq.count < toUnsigned s.scCtrlMap.syscalls → retargetedPid s cur = false →
      retargetedTgid s cur = false →
      takes ro s cur = selected s.scCtrlMap cur.pid cur.tgid ∧ dropped s cur = false := by
    intro hclosed hpid htgid
    have hd : dropped s cur = false := by rw [dropped, hpid, htgid, Bool.or_false]
    exact ⟨by rw [takes, hfull, hd, decide_eq_false hclosed, Bool.not_false, Bool.true_and,
      Bool.true_and], hd⟩
  generalize sysExit ro s cur now slot = res at hc ⊢
  cases hc with
  | more hlt =>
    rw [SyscallSeq.charge_count] at hlt
    rw [hfate, if_pos hlt, hopen hlt, if_pos rfl]
    exact ⟨⟨_, State.put_lookup_self _ _ _, hadd⟩, Or.inl rfl⟩
  | dropPid hclosed hpid =>
    rw [SyscallSeq.charge_count] at hclosed
    have hd : dropped s cur = true := by rw [dropped, hpid, Bool.true_or]
    rw [hfate, if_neg hclosed, if_pos hd, hdrop hd, if_neg (by decide)]
    exact ⟨⟨_, State.put_lookup_self s _ _, hadd.reset⟩, Or.inl rfl⟩
  | dropTgid hclosed hpid htgid =>
    rw [SyscallSeq.charge_count] at hclosed
    have hd : dropped s cur = true := by rw [dropped, htgid, Bool.or_true]
    rw [hfate, if_neg hclosed, if_pos hd, hdrop hd, if_neg (by decide)]
    exact ⟨⟨_, State.put_lookup_self s _ _, hadd.reset⟩, Or.inl rfl⟩
  | noSlot hclosed hpid htgid hslot =>
    rw [SyscallSeq.charge_count] at hclosed
    obtain ⟨htakes, hd⟩ := hkept hclosed hpid htgid
    rw [hfate, if_neg hclosed, hd, if_neg Bool.false_ne_true, hslot, htakes]
    exact ⟨⟨_, State.put_lookup_self _ _ _, hadd.take _⟩, Or.inl rfl⟩
  | emit mem hclosed hpid htgid hslot =>
    rw [SyscallSeq.charge_count] at hclosed
    obtain ⟨htakes, hd⟩ := hkept hclosed hpid htgid
    rw [hfate, if_neg hclosed, hd, if_neg Bool.false_ne_true, hslot, htakes]
    exact ⟨⟨_, State.put_lookup_self _ _ _, (hadd.take _).reset⟩,
      Or.inr ⟨_, rfl, rfl, rfl, (hadd.take _).fill _ cur mem⟩⟩

end Exit

/-! ## A run -/

section Run

variable {ro : Rodata} {c : ScCtrl} {pre tr : List Event} {e : Event}

/-- The calls of the batches that were sent. -/
def Books.calls (g : Books) : List Charge := g.sent.flatMap fun s => s.charges.batch

theorem Books.exit_calls (g : Books) (s : State) (cur : Task) (now : UInt64)
    (slot : Option SyscallSeq) (i : Nat) (t : UInt64) :
    (g.exit ro s cur now slot i t).calls = g.calls ++ (sysExit ro s cur now slot).2.flatMap fun _ =>
      (((g.threads cur.pid).add ⟨i, t, now⟩).take (takes ro s cur)).batch := by
  rw [Books.calls, Books.exit, List.flatMap_append, List.flatMap_map]
  rfl

/-- The book is right, and it is where the program is. -/
structure Booked (ro : Rodata) (c : ScCtrl) (tr : List Event) : Prop where
  idle : ∀ p, ((machine ro c).exec tr).procSyscall.lookup p = none →
    (books ro c tr).threads p = .empty
  behind : ∀ p seq, ((machine ro c).exec tr).procSyscall.lookup p = some seq →
    ((books ro c tr).threads p).Behind true seq
  sound : ∀ p, ((books ro c tr).threads p).Sound p tr (books ro c tr).calls (taken ro c tr p)
  emitted : (books ro c tr).sent.map Sending.record = (machine ro c).emitted tr
  records : ∀ s ∈ (books ro c tr).sent, s.charges.Behind s.sel s.record ∧
    s.charges.CallsOf s.record.pid tr
  apart : Once (books ro c tr).calls

theorem Charges.CallsOf.mono {p : Int} {a : Charges} (h : a.CallsOf p pre) (hp : pre <+: tr) :
    a.CallsOf p tr :=
  ⟨h.batch.mono hp, h.total.mono hp, h.extrema.mono hp⟩

theorem books_snoc : books ro c (pre ++ [e]) = (books ro c pre).step ro c pre e :=
  remember_snoc _ _ _ _

theorem taken_snoc :
    taken ro c (pre ++ [e]) = noteTaken ro (taken ro c pre) ((machine ro c).exec pre) e :=
  Machine.ghost_snoc _ _ _ _ _

theorem booked_nil : Booked ro c [] where
  idle _ _ := rfl
  behind p seq h := by cases h
  sound p := Charges.sound_empty p [] _ _
  emitted := rfl
  records s hs := absurd hs List.not_mem_nil
  apart := List.nodup_nil

theorem Booked.sent_charged (h : Booked ro c tr) {x : Charge} (hx : x ∈ (books ro c tr).calls) :
    ∃ q, Charged q tr x := by
  obtain ⟨s, hs, hmem⟩ := List.mem_flatMap.mp hx
  exact ⟨s.record.pid, (h.records s hs).2.batch.charged x hmem⟩

/-- An event at which nothing is charged or sent. -/
theorem Booked.keep (h : Booked ro c pre) (hbooks : books ro c (pre ++ [e]) = books ro c pre)
    (htaken : taken ro c (pre ++ [e]) = taken ro c pre) (hemits : (machine ro c).emits pre e = [])
    (hidle : ∀ p, ((machine ro c).step ((machine ro c).exec pre) e).1.procSyscall.lookup p = none →
      (books ro c pre).threads p = .empty)
    (hbehind : ∀ p seq,
      ((machine ro c).step ((machine ro c).exec pre) e).1.procSyscall.lookup p = some seq →
        ((books ro c pre).threads p).Behind true seq) : Booked ro c (pre ++ [e]) where
  idle p hp := by
    rw [Machine.exec_snoc] at hp
    rw [hbooks]
    exact hidle p hp
  behind p seq hp := by
    rw [Machine.exec_snoc] at hp
    rw [hbooks]
    exact hbehind p seq hp
  sound p := by
    rw [hbooks, htaken]
    exact (h.sound p).mono (List.prefix_append pre [e])
  emitted := by
    rw [hbooks, Machine.emitted_snoc, hemits, List.append_nil]
    exact h.emitted
  records s hs := by
    rw [hbooks] at hs
    exact (h.records s hs).imp_right fun hcalls => hcalls.mono (List.prefix_append pre [e])
  apart := by
    rw [hbooks]
    exact h.apart

theorem Booked.enter (h : Booked ro c pre) (cur : Task) (now : UInt64) (id : Int) (room : Bool) :
    Booked ro c (pre ++ [.sysEnter cur now id room]) := by
  have hother := (sysEnter_frame ro ((machine ro c).exec pre) cur now id room).2.2.2
  apply h.keep books_snoc taken_snoc rfl
  · intro p hp
    by_cases hcur : p = cur.pid
    · subst hcur
      rcases sysEnter_cases ro ((machine ro c).exec pre) cur now id room with
        hs | ⟨-, -, -, hs⟩ | ⟨seq, -, -, hs⟩
      · change (sysEnter ro _ cur now id room).procSyscall.lookup cur.pid = none at hp
        rw [hs] at hp
        exact h.idle cur.pid hp
      all_goals
        change (sysEnter ro _ cur now id room).procSyscall.lookup cur.pid = none at hp
        rw [hs, State.put_lookup_self] at hp
        cases hp
    · exact h.idle p ((hother p hcur).symm.trans hp)
  · intro p seq' hp
    by_cases hcur : p = cur.pid
    · subst hcur
      change (sysEnter ro _ cur now id room).procSyscall.lookup cur.pid = some seq' at hp
      rcases sysEnter_cases ro ((machine ro c).exec pre) cur now id room with
        hs | ⟨-, hl, -, hs⟩ | ⟨seq, -, hl, hs⟩
      · rw [hs] at hp
        exact h.behind cur.pid seq' hp
      · -- a new entry, and no calls behind it
        rw [hs, State.put_lookup_self] at hp
        cases hp
        rw [h.idle cur.pid hl]
        exact Charges.behind_create _ _ _ _ _
      · -- the sums of the entry stay
        rw [hs, State.put_lookup_self] at hp
        cases hp
        exact (h.behind cur.pid seq hl).enter _ now id
    · exact h.behind p seq' ((hother p hcur).symm.trans hp)

/-- The exit of the thread takes its entry away. -/
theorem Booked.processExit (h : Booked ro c pre) (cur : Task) :
    Booked ro c (pre ++ [.schedProcessExit cur]) := by
  by_cases hon : ((machine ro c).exec pre).scCtrlMap.scFunc = true
  · have hbooks : books ro c (pre ++ [.schedProcessExit cur]) =
        { books ro c pre with
          threads := Function.update (books ro c pre).threads cur.pid .empty } := by
      rw [books_snoc]
      exact if_pos hon
    have htaken : taken ro c (pre ++ [.schedProcessExit cur]) =
        Function.update (taken ro c pre) cur.pid false := by
      rw [taken_snoc]
      exact if_pos hon
    have hexec : (machine ro c).exec (pre ++ [.schedProcessExit cur]) =
        { (machine ro c).exec pre with
          procSyscall := ((machine ro c).exec pre).procSyscall.delete cur.pid } := by
      rw [Machine.exec_snoc]
      exact if_pos hon
    have hpre := List.prefix_append pre [Event.schedProcessExit cur]
    refine ⟨fun p hp => ?_, fun p seq hp => ?_, fun p => ?_, ?_, fun s hs => ?_, ?_⟩
    · rw [hbooks]
      rw [hexec] at hp
      by_cases hcur : p = cur.pid
      · subst hcur
        exact Function.update_self _ _ _
      · rw [BpfMap.lookup_delete_of_ne _ hcur] at hp
        exact (Function.update_of_ne hcur _ _).trans (h.idle p hp)
    · rw [hbooks]
      rw [hexec] at hp
      by_cases hcur : p = cur.pid
      · subst hcur
        rw [BpfMap.lookup_delete_self] at hp
        cases hp
      · rw [BpfMap.lookup_delete_of_ne _ hcur] at hp
        simp only [Function.update_of_ne hcur]
        exact h.behind p seq hp
    · rw [hbooks, htaken]
      by_cases hcur : p = cur.pid
      · subst hcur
        simp only [Function.update_self]
        exact Charges.sound_empty _ _ _ _
      · simp only [Function.update_of_ne hcur]
        exact (h.sound p).mono hpre
    · rw [hbooks, Machine.emitted_snoc]
      exact h.emitted.trans (List.append_nil _).symm
    · rw [hbooks] at hs
      exact (h.records s hs).imp_right fun hcalls => hcalls.mono hpre
    · rw [hbooks]
      exact h.apart
  · have hsame : schedProcessExit ((machine ro c).exec pre) cur = (machine ro c).exec pre :=
      if_neg hon
    have hbooks : books ro c (pre ++ [.schedProcessExit cur]) = books ro c pre := by
      rw [books_snoc]
      exact if_neg hon
    have htaken : taken ro c (pre ++ [.schedProcessExit cur]) = taken ro c pre := by
      rw [taken_snoc]
      exact if_neg hon
    apply h.keep hbooks htaken rfl
    · intro p hp
      change (schedProcessExit _ cur).procSyscall.lookup p = none at hp
      rw [hsame] at hp
      exact h.idle p hp
    · intro p seq hp
      change (schedProcessExit _ cur).procSyscall.lookup p = some seq at hp
      rw [hsame] at hp
      exact h.behind p seq hp

theorem full_of_uncharged {s : State} {cur : Task} {now : UInt64}
    (h : chargedDelay ro s cur now = none) : full ro s cur = false := by
  unfold chargedDelay at h
  unfold full
  cases ht : traced ro s.scCtrlMap cur with
  | false => rfl
  | true =>
    rw [ht, if_pos rfl, Option.map_eq_none_iff] at h
    rw [h]
    rfl

/-- A return at which no delay is taken. -/
theorem Booked.exit_uncharged (h : Booked ro c pre) {cur : Task} {now : UInt64}
    (slot : Option SyscallSeq) (hd : chargedDelay ro ((machine ro c).exec pre) cur now = none) :
    Booked ro c (pre ++ [.sysExit cur now slot]) := by
  have hsame := sysExit_charged ro ((machine ro c).exec pre) cur now slot
  rw [hd] at hsame
  have hbooks : books ro c (pre ++ [.sysExit cur now slot]) = books ro c pre := by
    rw [books_snoc, Books.step, hd]
  have htaken : taken ro c (pre ++ [.sysExit cur now slot]) = taken ro c pre := by
    have hfate : fate ro ((machine ro c).exec pre) cur slot = .stays := by
      rw [fate, full_of_uncharged hd, if_neg Bool.false_ne_true]
    have htakes : takes ro ((machine ro c).exec pre) cur = false := by
      rw [takes, full_of_uncharged hd]
      rfl
    rw [taken_snoc, noteTaken, hfate, htakes, if_pos rfl, Bool.or_false]
    exact Function.update_eq_self _ _
  have hout : (sysExit ro ((machine ro c).exec pre) cur now slot).2 = [] := by rw [hsame]
  apply h.keep hbooks htaken hout
  · intro p hp
    change (sysExit ro _ cur now slot).1.procSyscall.lookup p = none at hp
    rw [hsame] at hp
    exact h.idle p hp
  · intro p seq hp
    change (sysExit ro _ cur now slot).1.procSyscall.lookup p = some seq at hp
    rw [hsame] at hp
    exact h.behind p seq hp

/-- The books of all threads after a return, from that of the thread that returns. -/
theorem Booked.exit_sound (h : Booked ro c pre) {cur : Task} {now : UInt64}
    {slot : Option SyscallSeq} {i : Nat} {t : UInt64}
    (hsound : (((books ro c pre).threads cur.pid).add ⟨i, t, now⟩ |>.take
      (takes ro ((machine ro c).exec pre) cur)).Sound cur.pid (pre ++ [.sysExit cur now slot])
        (books ro c pre).calls
        (taken ro c pre cur.pid || takes ro ((machine ro c).exec pre) cur))
    (hout : (sysExit ro ((machine ro c).exec pre) cur now slot).2 = [] ∨
      fate ro ((machine ro c).exec pre) cur slot ≠ .stays) (p : Int) :
    (((books ro c pre).exit ro ((machine ro c).exec pre) cur now slot i t).threads p).Sound p
      (pre ++ [.sysExit cur now slot])
      ((books ro c pre).exit ro ((machine ro c).exec pre) cur now slot i t).calls
      (noteTaken ro (taken ro c pre) ((machine ro c).exec pre) (.sysExit cur now slot) p) := by
  rw [Books.exit_calls]
  by_cases hcur : p = cur.pid
  · subst hcur
    simp only [Books.exit, noteTaken, Function.update_self]
    by_cases hstays : fate ro ((machine ro c).exec pre) cur slot = .stays
    · -- the batch stays open, and nothing was sent
      rw [if_pos hstays, if_pos hstays, hout.resolve_right fun hne => hne hstays, List.flatMap_nil,
        List.append_nil]
      exact hsound
    · rw [if_neg hstays, if_neg hstays]
      exact hsound.reset _
  -- what is sent has calls of another thread
  · simp only [Books.exit, noteTaken, Function.update_of_ne hcur]
    apply ((h.sound p).mono (List.prefix_append pre _)).frame
    intro y hy
    obtain ⟨r, -, hmem⟩ := List.mem_flatMap.mp hy
    exact ⟨cur.pid, Ne.symm hcur, hsound.calls.batch.charged y hmem⟩

/-- A return at which the delay of the call in flight is taken. -/
theorem Booked.exit_charged (h : Booked ro c pre) {cur : Task} {now : UInt64}
    {slot : Option SyscallSeq} {i : Nat} {t : UInt64} {seq : SyscallSeq}
    (ht : traced ro ((machine ro c).exec pre).scCtrlMap cur = true)
    (hl : ((machine ro c).exec pre).procSyscall.lookup cur.pid = some seq)
    (hcall : callInFlight cur.pid pre = some (i, t)) (htime : seq.enterTime = t)
    (htaken : TakenOnce ro c pre (.sysExit cur now slot)) :
    Booked ro c (pre ++ [.sysExit cur now slot]) := by
  have hpre := List.prefix_append pre [Event.sysExit cur now slot]
  have hcharge : chargedDelay ro ((machine ro c).exec pre) cur now =
      some (now - seq.enterTime) := by
    rw [chargedDelay, if_pos ht, hl]
    rfl
  -- the call that returns is new to the book
  have hx : Charged cur.pid (pre ++ [.sysExit cur now slot]) ⟨i, t, now⟩ :=
    ⟨pre, cur, slot, rfl, List.prefix_rfl, hcall⟩
  have hsound := (((h.sound cur.pid).add hpre hx (fun q y hy => hy.fresh hcall)
    fun y hy => h.sent_charged hy).take htaken)
  obtain ⟨⟨seq', hl', hbehind⟩, hout⟩ := exit_behind slot ht hl (h.behind cur.pid seq hl)
    (show (⟨i, t, now⟩ : Charge).delay = now - seq.enterTime by rw [htime]; rfl)
  have hbooks : books ro c (pre ++ [.sysExit cur now slot]) =
      (books ro c pre).exit ro ((machine ro c).exec pre) cur now slot i t := by
    rw [books_snoc, Books.step, hcharge, hcall]
  have hframe := (sysExit_frame ro ((machine ro c).exec pre) cur now slot).2.1
  have hexec : (machine ro c).exec (pre ++ [.sysExit cur now slot]) =
      (sysExit ro ((machine ro c).exec pre) cur now slot).1 := Machine.exec_snoc _ _ _
  refine ⟨fun p hp => ?_, fun p seq hp => ?_, fun p => ?_, ?_, fun s hs => ?_, ?_⟩
  · rw [hexec] at hp
    rw [hbooks]
    by_cases hcur : p = cur.pid
    · subst hcur
      rw [hl'] at hp
      cases hp
    · exact (Function.update_of_ne hcur _ _).trans (h.idle p ((hframe p hcur).symm.trans hp))
  · rw [hexec] at hp
    rw [hbooks]
    by_cases hcur : p = cur.pid
    · subst hcur
      rw [hl'] at hp
      cases hp
      simp only [Books.exit, Function.update_self]
      exact hbehind
    · simp only [Books.exit, Function.update_of_ne hcur]
      exact h.behind p seq ((hframe p hcur).symm.trans hp)
  · rw [hbooks, taken_snoc]
    refine h.exit_sound hsound (hout.imp_right fun hsent hstays => ?_) p
    obtain ⟨r, -, hfate, -⟩ := hsent
    rw [hstays] at hfate
    cases hfate
  · rw [hbooks, Machine.emitted_snoc, ← h.emitted, Books.exit, List.map_append, List.map_map]
    exact congrArg _ (List.map_id _)
  · rw [hbooks] at hs
    rcases List.mem_append.mp hs with hs | hs
    · exact (h.records s hs).imp_right fun hcalls => hcalls.mono hpre
    · obtain ⟨r, hr, rfl⟩ := List.mem_map.mp hs
      rcases hout with hnone | ⟨r', hsome, -, hpid, hfill⟩
      · rw [hnone] at hr
        cases hr
      · -- the record that is sent now
        rw [hsome] at hr
        rw [List.mem_singleton.mp hr]
        refine ⟨hfill, ?_⟩
        show Charges.CallsOf r'.pid _ _
        rw [hpid]
        exact hsound.calls
  · rw [hbooks, Books.exit_calls]
    rcases hout with hnone | ⟨r, hsome, -⟩
    · rw [hnone, List.flatMap_nil, List.append_nil]
      exact h.apart
    · rw [hsome, List.flatMap_singleton]
      exact once_append.mpr ⟨h.apart, hsound.calls.batch.once, hsound.unsent⟩

theorem Booked.exit (h : Booked ro c pre) {cur : Task} {now : UInt64} {slot : Option SyscallSeq}
    (hseen : EntrySeen ro c pre (.sysExit cur now slot))
    (htaken : TakenOnce ro c pre (.sysExit cur now slot)) :
    Booked ro c (pre ++ [.sysExit cur now slot]) := by
  cases hd : chargedDelay ro ((machine ro c).exec pre) cur now with
  | none => exact h.exit_uncharged slot hd
  | some d =>
    obtain ⟨i, t, seq, hcall, hl, htime⟩ :=
      seen_stored ro c pre cur.pid (hseen (by rw [hd]; rfl))
    unfold chargedDelay at hd
    split at hd
    · rename_i ht
      exact h.exit_charged ht hl hcall htime htaken
    · cases hd

/-- In every run whose returns meet the two conditions the book is right. -/
theorem booked (ro : Rodata) (c : ScCtrl) (tr : List Event)
    (h : Throughout (fun pre e => EntrySeen ro c pre e ∧ TakenOnce ro c pre e) tr) :
    Booked ro c tr := by
  induction tr using List.reverseRecOn with
  | nil => exact booked_nil
  | append_singleton pre e ih =>
    have hpre := ih h.of_snoc
    obtain ⟨hseen, htaken⟩ := h.last
    cases e with
    | scCtrl c' => exact hpre.keep books_snoc taken_snoc rfl hpre.idle hpre.behind
    | sysEnter cur now id room => exact hpre.enter cur now id room
    | sysExit cur now slot => exact hpre.exit hseen htaken
    | schedProcessExit cur => exact hpre.processExit cur

end Run

/-! ## The reader -/

section Reader

variable {ro : Rodata} {c : ScCtrl} {tr : List Event}

theorem sumOf_flatMap {α : Type*} (f : α → List Charge) (l : List α) :
    sumOf (l.flatMap f) = (l.map fun s => sumOf (f s)).sum := by
  induction l with
  | nil => rfl
  | cons s l ih => rw [List.flatMap_cons, sumOf_append, ih, List.map_cons, List.sum_cons]

theorem addAll_maxDelay (env : Env) (es : List SyscallSeq) :
    (env.addAll es).maxDelay = (es.map SyscallSeq.maxDelay).foldl keepMax env.maxDelay := by
  induction es generalizing env with
  | nil => rfl
  | cons e es ih => exact ih (env.add e)

theorem addAll_minDelay (env : Env) (es : List SyscallSeq) :
    (env.addAll es).minDelay = (es.map SyscallSeq.minDelay).foldl keepMin env.minDelay := by
  induction es generalizing env with
  | nil => rfl
  | cons e es ih => exact ih (env.add e)

/-- A running extremum of running extrema of delays. -/
theorem extremum_charged {f : UInt64 → UInt64 → UInt64} (hf : ∀ m d, f m d = m ∨ f m d = d)
    {g : Sending → UInt64} {l : List Sending} (hl : ∀ s ∈ l, s.charges.CallsOf s.record.pid tr ∧
      g s = (s.charges.extrema.map Charge.delay).foldl f 0) :
    (l.map g).foldl f 0 = 0 ∨ ∃ p x, Charged p tr x ∧ (l.map g).foldl f 0 = x.delay := by
  rcases mem_foldl_of_choice hf 0 (l.map g) with hzero | hmem
  · exact Or.inl hzero
  · obtain ⟨s, hs, heq⟩ := List.mem_map.mp hmem
    obtain ⟨hcalls, hg⟩ := hl s hs
    rw [← heq, hg]
    rcases mem_foldl_of_choice hf 0 (s.charges.extrema.map Charge.delay) with hzero | hmem
    · exact Or.inl hzero
    · obtain ⟨x, hx, hdelay⟩ := List.mem_map.mp hmem
      exact Or.inr ⟨s.record.pid, x, hcalls.extrema.charged x hx, hdelay.symm⟩

/-- A reader that gets some of the records, and uses those that come while the image is on. -/
theorem Booked.system (h : Booked ro c tr) {rs : List (ScCtrl × SyscallSeq)} {env : Env}
    (hrs : (rs.map Prod.snd).Sublist ((machine ro c).emitted tr))
    (hprint : printAll Env.initial rs = .ok env) : SystemRight tr env := by
  obtain ⟨m, rfl⟩ := printAll_totals hprint
  have hused : (consumed rs).Sublist ((books ro c tr).sent.map Sending.record) := by
    rw [h.emitted]
    exact ((List.filter_sublist (l := rs)).map Prod.snd).trans hrs
  obtain ⟨l, hsub, hl⟩ := List.sublist_map_iff.mp hused
  have hright : ∀ s ∈ l, s.charges.Behind s.sel s.record ∧ s.charges.CallsOf s.record.pid tr :=
    fun s hs => h.records s (hsub.subset hs)
  rw [hl]
  refine ⟨⟨l.flatMap fun s => s.charges.batch, ?_, ?_, ?_⟩, ?_, ?_⟩
  · intro x hx
    obtain ⟨s, hs, hmem⟩ := List.mem_flatMap.mp hx
    exact ⟨s.record.pid, (hright s hs).2.batch.charged x hmem⟩
  · exact h.apart.sublist ((hsub.flatMap _).map _)
  · show (Env.initial.addAll (l.map Sending.record)).sumDelay = _
    rw [addAll_sumDelay, show Env.initial.sumDelay = 0 from rfl, UInt64.zero_add, sumOf_flatMap,
      List.map_map]
    exact congrArg List.sum (List.map_congr_left fun s hs => (hright s hs).1.sumDelay)
  · show (Env.initial.addAll (l.map Sending.record)).maxDelay = 0 ∨
      ∃ p x, Charged p tr x ∧ (Env.initial.addAll (l.map Sending.record)).maxDelay = x.delay
    rw [addAll_maxDelay, List.map_map]
    exact extremum_charged keepMax_choice fun s hs => ⟨(hright s hs).2, (hright s hs).1.maxDelay⟩
  · show (Env.initial.addAll (l.map Sending.record)).minDelay = 0 ∨
      ∃ p x, Charged p tr x ∧ (Env.initial.addAll (l.map Sending.record)).minDelay = x.delay
    rw [addAll_minDelay, List.map_map]
    exact extremum_charged keepMin_choice fun s hs => ⟨(hright s hs).2, (hright s hs).1.minDelay⟩

end Reader

/-- In every run, with any toggles, failures, exits and reuses of pids: as long as delays are taken
for calls whose entry was seen and a batch is added to `proc_sd` once, each delay is the time since
the entry of the call that returns, no call is charged at two returns, and no total has the delay of
a call twice. -/
theorem delays_right (ro : Rodata) (c : ScCtrl) (tr : List Event)
    (h : Throughout (fun pre e => EntrySeen ro c pre e ∧ TakenOnce ro c pre e) tr) :
    Throughout (fun pre e => DelayRight ro c pre e ∧ SumsRight ro c (pre ++ [e])) tr ∧
    ∀ pre cur now slot pre' cur' now' slot',
      pre ++ [.sysExit cur now slot] <+: tr → pre' ++ [.sysExit cur' now' slot'] <+: tr →
      ∀ i t t', callInFlight cur.pid pre = some (i, t) →
        callInFlight cur'.pid pre' = some (i, t') → pre = pre' := by
  refine ⟨fun pre e hp => ⟨?_, ?_⟩, ?_⟩
  · exact delayRight_of_seen ro c tr (throughout_and.mp h).1 pre e hp
  · have hbooked := booked ro c (pre ++ [e]) (h.restrict hp)
    exact ⟨hbooked.behind, fun p => (hbooked.sound p).calls, hbooked.emitted, hbooked.records,
      hbooked.apart, fun rs env => hbooked.system⟩
  · intro pre cur now slot pre' cur' now' slot' hp hp' i t t' hf hf'
    have hpid := callInFlight_pid ((List.prefix_append pre [_]).trans hp)
      ((List.prefix_append pre' [_]).trans hp') hf hf'
    rw [← hpid] at hf'
    exact inFlight_unique hp hp' (if_pos rfl) (if_pos hpid.symm) hf hf'

instance (ro : Rodata) (c : ScCtrl) (pre : List Event) : ∀ e, Decidable (TakenOnce ro c pre e)
  | .sysExit .. => inferInstanceAs (Decidable (_ = true → _ = false))
  | .scCtrl _ | .sysEnter .. | .schedProcessExit _ => isTrue trivial

section Toggle

/-- All threads, batches of two calls. -/
def pairs : ScCtrl where
  scFunc := true
  enableMyproc := false
  isContainer := false
  targetPid := -1
  targetTgid := -1
  syscalls := 2

/-- The tool is off while thread 5 exits and its pid is taken by a thread of process 8. -/
def reused : List Event :=
  [.sysEnter ⟨5, 4, none⟩ 100 0 true, .sysExit ⟨5, 4, none⟩ 107 (some .zero),
    .scCtrl { pairs with scFunc := false },
    .schedProcessExit ⟨5, 4, none⟩, .sysEnter ⟨5, 8, none⟩ 1000 1 true,
    .scCtrl pairs,
    .sysExit ⟨5, 8, none⟩ 1010 (some .zero)]

/-- The same with the tool on. -/
def reusedWhileOn : List Event :=
  [.sysEnter ⟨5, 4, none⟩ 100 0 true, .sysExit ⟨5, 4, none⟩ 107 (some .zero),
    .schedProcessExit ⟨5, 4, none⟩, .sysEnter ⟨5, 8, none⟩ 1000 1 true,
    .sysExit ⟨5, 8, none⟩ 1010 (some .zero)]

/-- Batches of one call, and no room in the ring buffer for the first. -/
def refused : List Event :=
  [.sysEnter ⟨5, 4, none⟩ 100 0 true, .sysExit ⟨5, 4, none⟩ 107 none,
    .sysEnter ⟨5, 4, none⟩ 110 1 true, .sysExit ⟨5, 4, none⟩ 113 (some .zero)]

theorem delays_right_while_on :
    Throughout (fun pre e => DelayRight ⟨1, []⟩ pairs pre e ∧ SumsRight ⟨1, []⟩ pairs (pre ++ [e]))
      reusedWhileOn ∧
    ∀ pre cur now slot pre' cur' now' slot',
      pre ++ [.sysExit cur now slot] <+: reusedWhileOn →
      pre' ++ [.sysExit cur' now' slot'] <+: reusedWhileOn →
      ∀ i t t', callInFlight cur.pid pre = some (i, t) →
        callInFlight cur'.pid pre' = some (i, t') → pre = pre' :=
  delays_right ⟨1, []⟩ pairs reusedWhileOn (by decide +kernel)

/-- The second call took 10; what is added for it is the time since the first call of the former
thread, whose time of entry was already used at 107.  Of two calls that took 7 and 3 the first is
added to `proc_sd` twice, as its reservation failed. -/
theorem toggle_reuses_entry :
    (¬Throughout (DelayRight ⟨1, []⟩ pairs) reused ∧
      callInFlight 5 (reused.take 6) = some (4, 1000) ∧
      ((machine ⟨1, []⟩ pairs).exec reused).procSyscall.lookup 5 =
        some ((SyscallSeq.create 5 true 100 0).charge 7 |>.charge 910)) ∧
    Throughout (DelayRight ⟨1, []⟩ { pairs with syscalls := 1 }) refused ∧
    ¬SumsRight ⟨1, []⟩ { pairs with syscalls := 1 } refused ∧
    (((machine ⟨1, []⟩ { pairs with syscalls := 1 }).exec refused).procSyscall.lookup 5).map
      SyscallSeq.procSd = some 17 := by
  refine ⟨⟨?_, ?_, ?_⟩, ?_, fun h => ?_, ?_⟩
  · decide +kernel
  · decide +kernel
  · decide +kernel
  · decide +kernel
  · have honce : (((books ⟨1, []⟩ { pairs with syscalls := 1 } refused).threads 5).total.map
        Charge.entry).Nodup := (h.calls 5).total.once
    have htotal : ((books ⟨1, []⟩ { pairs with syscalls := 1 } refused).threads 5).total.map
        Charge.entry = [0, 0, 2] := by decide +kernel
    rw [htotal] at honce
    exact (List.nodup_cons.mp honce).1 List.mem_cons_self
  · decide +kernel

end Toggle

end CpuSubsystem.SyscallImage
