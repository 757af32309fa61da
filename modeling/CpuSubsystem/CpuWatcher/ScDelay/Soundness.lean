import CpuSubsystem.CpuWatcher.ScDelay.Records

/-!
# What a record says is right

However the maps fill up and reservations fail, the enter time that a return finds is that of its
call, and so is the id, if each call returns on the CPU on which it was entered.
-/

namespace CpuSubsystem.ScDelay

/-- The call returns on the CPU where it was entered. -/
def SameCpu (pre : List Event) : Event → Prop
  | .sysExit cpu cur _ _ => ∀ a ∈ (calls (syscalls cur.pid) pre).pending, a.cpu = cpu
  | _ => True

/-- Every thread enters and leaves calls in turn, each on one CPU. -/
structure PinnedRun (tr : List Event) : Prop where
  alternating : ∀ e ∈ tr, ∀ cur ∈ e.cur, Alternating (syscalls cur.pid) tr
  sameCpu : Throughout SameCpu tr

/-- The records are about the call that returns: its id, and the microseconds since its entry. -/
def RecordsRight (c : ScCtrl) (pre : List Event) (e : Event) : Prop :=
  ∀ r ∈ (machine c).emits pre e, ∃ cpu cur now slot a,
    e = .sysExit cpu cur now slot ∧ (calls (syscalls cur.pid) pre).pending = some a ∧
      r.pid = cur.pid ∧ r.syscallId = a.id ∧ r.delay = now / 1000 - a.start

/-- What the maps hold for a thread: the enter time of the pending call at most, and on its CPU no
other id than that of the call. -/
structure Noted (pid : Int) (tr : List Event) (s : State) : Prop where
  time : s.syscallEnterTime.table.lookup pid =
    (calls (syscalls pid) tr).pending.bind fun a => if a.room then some a.values else none
  id : ∀ a, (calls (syscalls pid) tr).pending = some a → s.events.contains pid = true →
    s.events.lookup a.cpu pid = some a.id

section Run

variable {c : ScCtrl} {pre tr : List Event} {e : Event} {s : State} {pid : Int} {cpu : Nat}
  {cur : Task} {id now : UInt64} {rooms : Rooms} {slot : Option SyscallEvents}

theorem PinnedRun.restrict (h : PinnedRun tr) (hp : pre <+: tr) : PinnedRun pre where
  alternating e he cur hcur := (h.alternating e (hp.subset he) cur hcur).restrict hp
  sameCpu := h.sameCpu.restrict hp

/-- An event that is not about the thread. -/
theorem Noted.skip (h : Noted pid pre s) (he : syscalls pid e = none) {s' : State}
    (htime : s'.syscallEnterTime.table.lookup pid = s.syscallEnterTime.table.lookup pid)
    (hevents : s'.events.table.lookup pid = s.events.table.lookup pid) :
    Noted pid (pre ++ [e]) s' := by
  constructor
  · rw [calls_snoc_skip he, htime, h.time]
  · rw [calls_snoc_skip he]
    intro a ha hc
    rw [PercpuMap.contains, hevents] at hc
    rw [PercpuMap.lookup, hevents]
    exact h.id a ha hc

theorem Noted.enter (h : Noted cur.pid pre s)
    (hidle : (calls (syscalls cur.pid) pre).pending = none) :
    Noted cur.pid (pre ++ [Event.sysEnter cpu cur id now rooms])
      (sysEnter s cpu cur id now rooms) := by
  have habsent := h.time
  rw [hidle] at habsent
  constructor
  · rw [pending_enter]
    exact sysEnter_time habsent
  · rw [pending_enter]
    intro a ha hc
    cases ha
    exact sysEnter_id hc

/-- After a return no call is pending, and the enter time is gone even if nothing was reported. -/
theorem noted_exit :
    Noted cur.pid (pre ++ [Event.sysExit cpu cur now slot]) (sysExit s cpu cur now slot).1 := by
  constructor
  · rw [sysExit_own.1, pending_exit]
    rfl
  · rw [pending_exit]
    intro a ha
    cases ha

theorem noted (c : ScCtrl) (h : PinnedRun tr) (pid : Int) :
    Noted pid tr ((machine c).exec tr) := by
  induction tr using List.reverseRecOn with
  | nil => exact ⟨rfl, fun a ha => by cases ha⟩
  | append_singleton pre e ih =>
    have hpre := ih (h.restrict (List.prefix_append pre [e]))
    have hmem : e ∈ pre ++ [e] := List.mem_append_right pre (List.mem_singleton_self e)
    rw [Machine.exec_snoc]
    rcases syscalls_cases pid e with hother | ⟨cpu, cur, id, now, rooms, rfl, rfl⟩ |
      ⟨cpu, cur, now, slot, rfl, rfl⟩
    · obtain ⟨htime, hevents, -⟩ := step_others ((machine c).exec pre) hother
      exact hpre.skip hother htime hevents
    · -- no call is pending, so no old enter time is left
      exact hpre.enter ((h.alternating _ hmem cur rfl).idle syscalls_enter_self)
    · exact noted_exit

/-- What a return reports comes from both elements of its thread. -/
theorem sysExit_reports {r : SyscallEvents} (h : r ∈ (sysExit s cpu cur now slot).2) :
    ∃ start id, s.syscallEnterTime.table.lookup cur.pid = some start ∧
      s.events.lookup cpu cur.pid = some id ∧
      r.pid = cur.pid ∧ r.syscallId = id ∧ r.delay = now / 1000 - start cpu := by
  cases hl : s.syscallEnterTime.table.lookup cur.pid with
  | none =>
    rw [sysExit_unseen (congrArg Option.isSome hl)] at h
    cases h
  | some start =>
    cases slot with
    | none =>
      simp only [sysExit, PercpuMap.lookup, hl, Option.map_some] at h
      cases hid : s.events.table.lookup cur.pid <;> rw [hid] at h <;> cases h
    | some old =>
      rw [sysExit_out hl] at h
      cases hid : s.events.lookup cpu cur.pid with
      | none =>
        rw [hid] at h
        cases h
      | some id =>
        rw [hid, Option.map_some, Option.toList_some, List.mem_singleton] at h
        exact ⟨start, id, rfl, rfl, by rw [h], by rw [h], by rw [h]⟩

theorem records_right_at (h : PinnedRun (pre ++ [e])) : RecordsRight c pre e := by
  intro r hr
  cases e with
  | scCtrl c' => cases hr
  | sysEnter cpu cur id now rooms => cases hr
  | sysExit cpu cur now slot =>
    obtain ⟨start, id, hstart, hid, hpid, hcall, hdelay⟩ := sysExit_reports hr
    have hnoted := noted c (h.restrict (List.prefix_append pre _)) cur.pid
    have htime := hnoted.time
    rw [hstart] at htime
    -- there is an enter time, hence a pending call, and it was stored at the entry of this call
    obtain ⟨a, ha, hroom⟩ := Option.bind_eq_some_iff.mp htime.symm
    split at hroom
    · cases hroom
      have hcpu : a.cpu = cpu := h.sameCpu.last a ha
      have hknown : ((machine c).exec pre).events.contains cur.pid = true := by
        rw [PercpuMap.lookup, Option.map_eq_some_iff] at hid
        obtain ⟨values, hvalues, -⟩ := hid
        exact congrArg Option.isSome hvalues
      have hown := hnoted.id a ha hknown
      rw [hcpu, hid] at hown
      refine ⟨cpu, cur, now, slot, a, rfl, ha, hpid, ?_, ?_⟩
      · exact hcall.trans (Option.some.inj hown)
      · rw [hdelay, ← hcpu, Entry.values, Function.update_self]
    · cases hroom

/-- For every number of threads and CPUs, every interleaving and every pattern of refused updates
and reservations. -/
theorem records_right (c : ScCtrl) (tr : List Event) (h : PinnedRun tr) :
    Throughout (RecordsRight c) tr :=
  fun _ _ hp => records_right_at (h.restrict hp)

end Run

section Sample

instance (pre : List Event) : DecidablePred (SameCpu pre)
  | .sysExit _ _ _ _ => Option.decidableForallMem _
  | .sysEnter _ _ _ _ _ => inferInstanceAs (Decidable True)
  | .scCtrl _ => inferInstanceAs (Decidable True)

/-- A thread makes a call on CPU 0 whose record is lost, then one on CPU 1 and one more on CPU 0, at
which the enter time is refused. -/
def lossy : List Event :=
  [.sysExit 0 ⟨5, Comm.none⟩ 9000 (some blank),
    .sysEnter 0 ⟨5, Comm.none⟩ 1 10000 ⟨true, true⟩, .sysExit 0 ⟨5, Comm.none⟩ 20000 none,
    .sysEnter 1 ⟨5, Comm.none⟩ 3 30000 ⟨false, true⟩, .sysExit 1 ⟨5, Comm.none⟩ 37000 (some blank),
    .sysEnter 0 ⟨5, Comm.none⟩ 4 40000 ⟨false, false⟩, .sysExit 0 ⟨5, Comm.none⟩ 50000 (some blank)]

theorem records_right_lossy : Throughout (RecordsRight ⟨true, 0⟩) lossy :=
  records_right ⟨true, 0⟩ lossy ⟨by decide, by decide⟩

end Sample

end CpuSubsystem.ScDelay
