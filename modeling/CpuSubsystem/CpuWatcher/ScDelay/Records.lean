import CpuSubsystem.CpuWatcher.ScDelay.Model
import CpuSubsystem.Lib.Calls

/-!
# One record for each system call

The two elements of a thread live differently: that of `SyscallEnterTime` from the entry of a call
to its return, that of `Events` for ever once it was made.  On other CPUs than that of the entry the
enter time is 0.
-/

namespace CpuSubsystem.ScDelay

/-- The entry of a call, and whether `SyscallEnterTime` had room then. -/
structure Entry where
  cpu : Nat
  id : UInt64
  start : UInt64
  room : Bool
deriving DecidableEq

/-- The system calls of a thread, with times in microseconds. -/
def syscalls (pid : Int) : Event → Option (Probe Entry UInt64)
  | .sysEnter cpu cur id now rooms =>
    if cur.pid = pid then some (.enter ⟨cpu, id, now / 1000, rooms.syscallEnterTime⟩) else none
  | .sysExit _ cur now _ => if cur.pid = pid then some (.exit (now / 1000)) else none
  | .scCtrl _ => none

/-- An entry of the thread at which `Events` had room. -/
def makesKnown (pid : Int) : Event → Bool
  | .sysEnter _ cur _ _ rooms => cur.pid = pid && rooms.events
  | _ => false

def Event.cur : Event → Option Task
  | .sysEnter _ cur .. | .sysExit _ cur .. => some cur
  | .scCtrl _ => none

def Event.served : Event → Bool
  | .sysExit _ _ _ slot => slot.isSome
  | _ => true

def Event.booted : Event → Bool
  | .sysEnter _ _ _ now _ => now / 1000 ≠ 0
  | _ => true

/-- Every thread enters and leaves calls in turn, reservations succeed, and the clock, which runs
since boot, shows a microsecond at least. -/
structure SyscallRun (tr : List Event) : Prop where
  alternating : ∀ e ∈ tr, ∀ cur ∈ e.cur, Alternating (syscalls cur.pid) tr
  served : ∀ e ∈ tr, e.served = true
  booted : ∀ e ∈ tr, e.booted = true

/-- The return of a call whose entry was observed yields one record, about this call. -/
def Reported (c : ScCtrl) (pre : List Event) : Event → Prop
  | .sysExit cpu cur now slot => ∀ a ∈ (calls (syscalls cur.pid) pre).pending,
      ((machine c).emits pre (.sysExit cpu cur now slot)).map
        (fun r => (r.pid, r.syscallId, r.delay)) = [(cur.pid, a.id, now / 1000 - a.start)]
  | _ => True

/-- The call returns on the CPU where it was entered, `SyscallEnterTime` had room at its entry, and
`Events` had room at this or an earlier entry of the thread. -/
def Kept (pre : List Event) : Event → Prop
  | .sysExit cpu cur _ _ => ∀ a ∈ (calls (syscalls cur.pid) pre).pending,
      a.cpu = cpu ∧ a.room = true ∧ pre.any (makesKnown cur.pid) = true
  | _ => True

instance (c : ScCtrl) (pre : List Event) : DecidablePred (Reported c pre)
  | .sysExit _ _ _ _ => Option.decidableForallMem _
  | .sysEnter _ _ _ _ _ => inferInstanceAs (Decidable True)
  | .scCtrl _ => inferInstanceAs (Decidable True)

instance (pre : List Event) : DecidablePred (Kept pre)
  | .sysExit _ _ _ _ => Option.decidableForallMem _
  | .sysEnter _ _ _ _ _ => inferInstanceAs (Decidable True)
  | .scCtrl _ => inferInstanceAs (Decidable True)

section Run

variable {c : ScCtrl} {pre tr : List Event} {e : Event} {s : State} {pid : Int} {cpu : Nat}
  {cur : Task} {id now : UInt64} {rooms : Rooms} {slot : Option SyscallEvents}

theorem SyscallRun.restrict (h : SyscallRun tr) (hp : pre <+: tr) : SyscallRun pre where
  alternating e he cur hcur := (h.alternating e (hp.subset he) cur hcur).restrict hp
  served e he := h.served e (hp.subset he)
  booted e he := h.booted e (hp.subset he)

theorem syscalls_enter_self : syscalls cur.pid (.sysEnter cpu cur id now rooms) =
    some (.enter ⟨cpu, id, now / 1000, rooms.syscallEnterTime⟩) :=
  if_pos rfl

theorem syscalls_exit_self : syscalls cur.pid (.sysExit cpu cur now slot) =
    some (.exit (now / 1000)) :=
  if_pos rfl

/-- The values of an element of `SyscallEnterTime`. -/
def Entry.values (a : Entry) : Nat → UInt64 := Function.update (fun _ => 0) a.cpu a.start

/-- What the maps hold for a thread. -/
structure Held (pid : Int) (tr : List Event) (s : State) : Prop where
  time : s.syscallEnterTime.table.lookup pid =
    (calls (syscalls pid) tr).pending.bind fun a => if a.room then some a.values else none
  known : s.events.contains pid = tr.any (makesKnown pid)
  id : ∀ a, (calls (syscalls pid) tr).pending = some a → s.events.contains pid = true →
    s.events.lookup a.cpu pid = some a.id
  started : ∀ a, (calls (syscalls pid) tr).pending = some a → a.start ≠ 0

theorem held_initial (c : ScCtrl) (pid : Int) : Held pid [] (initial c) where
  time := rfl
  known := rfl
  id _ h := by cases h
  started _ h := by cases h

/-- An event that is not about the thread. -/
theorem Held.skip (h : Held pid pre s) (he : syscalls pid e = none) (hk : makesKnown pid e = false)
    {s' : State} (htime : s'.syscallEnterTime.table.lookup pid =
      s.syscallEnterTime.table.lookup pid)
    (hevents : s'.events.table.lookup pid = s.events.table.lookup pid) :
    Held pid (pre ++ [e]) s' := by
  have hcontains : s'.events.contains pid = s.events.contains pid :=
    congrArg Option.isSome hevents
  have hlookup : ∀ cpu, s'.events.lookup cpu pid = s.events.lookup cpu pid :=
    fun cpu => congrArg _ hevents
  constructor
  · rw [calls_snoc_skip he, htime, h.time]
  · rw [hcontains, h.known]
    simp [hk]
  · rw [calls_snoc_skip he, hcontains]
    intro a ha hc
    rw [hlookup]
    exact h.id a ha hc
  · rw [calls_snoc_skip he]
    exact h.started

theorem sysEnter_contains : (sysEnter s cpu cur id now rooms).events.contains cur.pid =
    s.events.table.accepts rooms.events cur.pid := by
  show ((s.events.table.update rooms.events cur.pid _).lookup cur.pid).isSome = _
  rw [BpfMap.lookup_update_self]
  split
  · rename_i hacc
    rw [hacc]
    rfl
  · rename_i hacc
    rw [Bool.not_eq_true] at hacc
    rw [hacc]
    rfl

/-- The id is there on the CPU of the entry when the update was not refused. -/
theorem sysEnter_id (h : (sysEnter s cpu cur id now rooms).events.contains cur.pid = true) :
    (sysEnter s cpu cur id now rooms).events.lookup cpu cur.pid = some id := by
  rw [sysEnter_contains] at h
  show ((s.events.table.update _ _ _).lookup cur.pid).map _ = _
  rw [BpfMap.update_of_accepts _ h, BpfMap.lookup_store_self]
  exact congrArg some (Function.update_self _ _ _)

/-- A new element of `SyscallEnterTime`. -/
theorem sysEnter_time (h : s.syscallEnterTime.table.lookup cur.pid = none) :
    (sysEnter s cpu cur id now rooms).syscallEnterTime.table.lookup cur.pid =
      if rooms.syscallEnterTime then
        some (Entry.values ⟨cpu, id, now / 1000, rooms.syscallEnterTime⟩)
      else none := by
  show (s.syscallEnterTime.table.update _ _ _).lookup cur.pid = _
  rw [BpfMap.lookup_update_self, BpfMap.accepts, h]
  cases rooms.syscallEnterTime <;> rfl

/-- The element of `SyscallEnterTime` is gone after a return, that of `Events` stays. -/
theorem sysExit_own : (sysExit s cpu cur now slot).1.syscallEnterTime.table.lookup cur.pid = none ∧
    (sysExit s cpu cur now slot).1.events = s.events := by
  cases hl : s.syscallEnterTime.table.lookup cur.pid with
  | none =>
    rw [sysExit_unseen (congrArg Option.isSome hl)]
    exact ⟨hl, rfl⟩
  | some start =>
    rw [sysExit_state hl]
    exact ⟨BpfMap.lookup_delete_self _ _, rfl⟩

theorem pending_enter :
    (calls (syscalls cur.pid) (pre ++ [Event.sysEnter cpu cur id now rooms])).pending =
      some ⟨cpu, id, now / 1000, rooms.syscallEnterTime⟩ := by
  rw [calls_snoc syscalls_enter_self]
  rfl

theorem pending_exit :
    (calls (syscalls cur.pid) (pre ++ [Event.sysExit cpu cur now slot])).pending = none := by
  rw [calls_snoc syscalls_exit_self, Calls.step]
  cases hp : (calls (syscalls cur.pid) pre).pending with
  | none => exact hp
  | some a => rfl

theorem Held.enter (h : Held cur.pid pre s)
    (hidle : (calls (syscalls cur.pid) pre).pending = none) (hnow : now / 1000 ≠ 0) :
    Held cur.pid (pre ++ [Event.sysEnter cpu cur id now rooms])
      (sysEnter s cpu cur id now rooms) := by
  have habsent := h.time
  rw [hidle] at habsent
  constructor
  · rw [pending_enter]
    -- no call was pending, so the element is new
    exact sysEnter_time habsent
  · rw [sysEnter_contains, BpfMap.accepts, List.any_append]
    have hknown := h.known
    rw [PercpuMap.contains] at hknown
    rw [hknown]
    simp [makesKnown, Bool.or_comm]
  · rw [pending_enter]
    intro a ha hc
    cases ha
    exact sysEnter_id hc
  · rw [pending_enter]
    intro a ha
    cases ha
    exact hnow

theorem Held.exit (h : Held cur.pid pre s) :
    Held cur.pid (pre ++ [Event.sysExit cpu cur now slot]) (sysExit s cpu cur now slot).1 := by
  have hknown : (pre ++ [Event.sysExit cpu cur now slot]).any (makesKnown cur.pid) =
      pre.any (makesKnown cur.pid) := by
    rw [List.any_append]
    exact Bool.or_false _
  obtain ⟨htime, hevents⟩ := @sysExit_own s cpu cur now slot
  constructor
  · rw [htime, pending_exit]
    rfl
  · rw [hevents, hknown, h.known]
  · rw [pending_exit]
    intro a ha
    cases ha
  · rw [pending_exit]
    intro a ha
    cases ha

/-- The probes touch nothing but the elements of their thread. -/
theorem sysExit_others (s : State) (cpu : Nat) (now : UInt64) (slot : Option SyscallEvents)
    {q : Int} (hq : q ≠ cur.pid) :
    (sysExit s cpu cur now slot).1.syscallEnterTime.table.lookup q =
        s.syscallEnterTime.table.lookup q ∧
      (sysExit s cpu cur now slot).1.events = s.events := by
  cases hl : s.syscallEnterTime.table.lookup cur.pid with
  | none =>
    rw [sysExit_unseen (congrArg Option.isSome hl)]
    exact ⟨rfl, rfl⟩
  | some start =>
    rw [sysExit_state hl]
    exact ⟨BpfMap.lookup_delete_of_ne _ hq, rfl⟩

/-- An event is a probe of the thread, or it is not about the thread. -/
theorem syscalls_cases (pid : Int) (e : Event) : syscalls pid e = none ∨
    (∃ cpu cur id now rooms, e = .sysEnter cpu cur id now rooms ∧ cur.pid = pid) ∨
    ∃ cpu cur now slot, e = .sysExit cpu cur now slot ∧ cur.pid = pid := by
  cases e with
  | scCtrl c => exact Or.inl rfl
  | sysEnter cpu cur id now rooms =>
    by_cases hp : cur.pid = pid
    · exact Or.inr (Or.inl ⟨cpu, cur, id, now, rooms, rfl, hp⟩)
    · exact Or.inl (if_neg hp)
  | sysExit cpu cur now slot =>
    by_cases hp : cur.pid = pid
    · exact Or.inr (Or.inr ⟨cpu, cur, now, slot, rfl, hp⟩)
    · exact Or.inl (if_neg hp)

/-- What is not about the thread leaves its elements alone. -/
theorem step_others (s : State) (h : syscalls pid e = none) :
    (step s e).1.syscallEnterTime.table.lookup pid = s.syscallEnterTime.table.lookup pid ∧
      (step s e).1.events.table.lookup pid = s.events.table.lookup pid ∧
      makesKnown pid e = false := by
  cases e with
  | scCtrl c => exact ⟨rfl, rfl, rfl⟩
  | sysEnter cpu cur id now rooms =>
    have hp : cur.pid ≠ pid := by
      intro hp
      rw [syscalls, if_pos hp] at h
      cases h
    refine ⟨?_, ?_, by simp [makesKnown, hp]⟩
    · exact BpfMap.lookup_update_of_ne _ _ _ (Ne.symm hp)
    · exact BpfMap.lookup_update_of_ne _ _ _ (Ne.symm hp)
  | sysExit cpu cur now slot =>
    have hp : cur.pid ≠ pid := by
      intro hp
      rw [syscalls, if_pos hp] at h
      cases h
    obtain ⟨htime, hevents⟩ := sysExit_others s cpu now slot (Ne.symm hp)
    exact ⟨htime, by rw [← hevents]; rfl, rfl⟩

theorem held (c : ScCtrl) (h : SyscallRun tr) (pid : Int) : Held pid tr ((machine c).exec tr) := by
  induction tr using List.reverseRecOn with
  | nil => exact held_initial c pid
  | append_singleton pre e ih =>
    have hpre := ih (h.restrict (List.prefix_append pre [e]))
    have hmem : e ∈ pre ++ [e] := List.mem_append_right pre (List.mem_singleton_self e)
    rw [Machine.exec_snoc]
    rcases syscalls_cases pid e with hother | ⟨cpu, cur, id, now, rooms, rfl, rfl⟩ |
      ⟨cpu, cur, now, slot, rfl, rfl⟩
    · obtain ⟨htime, hevents, hknown⟩ := step_others ((machine c).exec pre) hother
      exact hpre.skip hother hknown htime hevents
    · have halt := h.alternating _ hmem cur rfl
      have hnow : now / 1000 ≠ 0 := of_decide_eq_true (h.booted _ hmem)
      exact hpre.enter (halt.idle syscalls_enter_self) hnow
    · exact hpre.exit

/-- A return reports its call exactly when the call was kept. -/
theorem reported_iff (h : SyscallRun (pre ++ [e])) : Reported c pre e ↔ Kept pre e := by
  cases e with
  | scCtrl c' => rfl
  | sysEnter cpu cur id now rooms => rfl
  | sysExit cpu cur now slot =>
    have hheld := held c (h.restrict (List.prefix_append pre _)) cur.pid
    have hserved := h.served _ (List.mem_append_right pre (List.mem_singleton_self _))
    obtain ⟨old, rfl⟩ := Option.isSome_iff_exists.mp hserved
    show (∀ a ∈ _, _) ↔ ∀ a ∈ _, _
    apply forall_congr'
    intro a
    apply forall_congr'
    intro ha
    have htime := hheld.time
    rw [Option.mem_def.mp ha, Option.bind_some] at htime
    have hemits : (machine c).emits pre (.sysExit cpu cur now (some old)) =
        (sysExit ((machine c).exec pre) cpu cur now (some old)).2 := rfl
    rw [hemits, ← hheld.known]
    cases hroom : a.room with
    | false =>
      rw [hroom] at htime
      rw [sysExit_unseen (congrArg Option.isSome htime)]
      simp
    | true =>
      rw [hroom, if_pos rfl] at htime
      rw [sysExit_out htime]
      cases hknown : ((machine c).exec pre).events.contains cur.pid with
      | false =>
        rw [PercpuMap.lookup_of_not_contains hknown]
        simp
      | true =>
        by_cases hcpu : a.cpu = cpu
        · rw [← hcpu, hheld.id a ha hknown, Entry.values, Function.update_self]
          simp
        -- on another CPU the enter time is 0, which no call has
        · obtain ⟨values, hvalues⟩ := Option.isSome_iff_exists.mp hknown
          have hother : a.values cpu = 0 := Function.update_of_ne (Ne.symm hcpu) _ _
          have hdelay : now / 1000 ≠ now / 1000 - a.start := by
            intro heq
            exact hheld.started a ha (sub_eq_self.mp heq.symm)
          rw [PercpuMap.lookup, hvalues, hother]
          simp [hcpu, hdelay]

/-- For every number of threads and CPUs and every interleaving: all calls whose entry was observed
are reported exactly when they are kept. -/
theorem syscalls_reported (c : ScCtrl) (tr : List Event) (h : SyscallRun tr) :
    Throughout (Reported c) tr ↔ Throughout Kept tr := by
  constructor
  · intro hr pre e hp
    exact (reported_iff (h.restrict hp)).mp (hr pre e hp)
  · intro hk pre e hp
    exact (reported_iff (h.restrict hp)).mpr (hk pre e hp)

end Run

section Sample

/-- A map has room exactly when it holds fewer elements than it was made for. -/
def Sized (c : ScCtrl) (pre : List Event) : Event → Prop
  | .sysEnter _ _ _ _ rooms =>
      let s := (machine c).exec pre
      rooms.events = decide (s.events.table.keys.card < maxEvents) ∧
        rooms.syscallEnterTime = decide (s.syscallEnterTime.table.keys.card < maxSyscallEnterTime)
  | _ => True

instance (c : ScCtrl) (pre : List Event) : DecidablePred (Sized c pre)
  | .sysEnter _ _ _ _ _ => inferInstanceAs (Decidable (_ ∧ _))
  | .sysExit _ _ _ _ => inferInstanceAs (Decidable True)
  | .scCtrl _ => inferInstanceAs (Decidable True)

def blank : SyscallEvents := ⟨0, 0, Comm.none, 0, 0⟩

/-- Two threads are inside calls at once, on two CPUs. -/
def twoCalls : List Event :=
  [.sysEnter 0 ⟨5, Comm.none⟩ 1 10000 ⟨true, true⟩, .sysEnter 1 ⟨6, Comm.none⟩ 3 12000 ⟨true, true⟩,
    .sysExit 0 ⟨5, Comm.none⟩ 20000 (some blank), .sysExit 1 ⟨6, Comm.none⟩ 25000 (some blank)]

theorem syscalls_reported_twoCalls :
    Throughout (Reported ⟨true, 0⟩) twoCalls :=
  (syscalls_reported ⟨true, 0⟩ twoCalls ⟨by decide, by decide, by decide⟩).mpr (by decide)

/-- Eleven threads, each of which makes one call on CPU 0. -/
def elevenThreads : List Event :=
  (List.range 11).flatMap fun i : Nat =>
    [.sysEnter 0 ⟨i + 1, Comm.none⟩ 1 (2000 + 2000 * UInt64.ofNat i) ⟨decide (i < 10), true⟩,
      .sysExit 0 ⟨i + 1, Comm.none⟩ (3000 + 2000 * UInt64.ofNat i) (some blank)]

/-- A thread migrates inside a call. -/
def migrates : List Event :=
  [.sysEnter 0 ⟨5, Comm.none⟩ 1 10000 ⟨true, true⟩, .sysExit 1 ⟨5, Comm.none⟩ 20000 (some blank)]

/-- `Events` keeps its elements, so an eleventh thread is never reported. -/
theorem eleventh_thread_lost :
    (SyscallRun elevenThreads ∧ Throughout (Sized ⟨true, 0⟩) elevenThreads ∧
      ¬Throughout (Reported ⟨true, 0⟩) elevenThreads) ∧
    (SyscallRun migrates ∧ Throughout (Sized ⟨true, 0⟩) migrates ∧
      ¬Throughout (Reported ⟨true, 0⟩) migrates) := by
  refine ⟨⟨⟨by decide, by decide, by decide⟩, by decide, by decide⟩,
    ⟨⟨by decide, by decide, by decide⟩, by decide, by decide⟩⟩

end Sample

end CpuSubsystem.ScDelay
