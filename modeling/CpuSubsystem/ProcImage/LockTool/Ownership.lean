import CpuSubsystem.Lib.Nesting
import CpuSubsystem.ProcImage.LockTool.Model

/-!
# The calls of the target and its records

All traced calls of the target share the element in `procLock`, and all requests for a lock the
entry in `lock`.  So the call that returns is the one that the element names, but the entry is that
of the last request, whether or not it got the lock.
-/

namespace CpuSubsystem.LockTool

/-- The function is one that takes a lock, not one that gives it back. -/
def Function.takes (f : Function) : Bool :=
  match f.traced.use with
  | .locks _ => true
  | .unlocks => false

/-- The tool sees the calls of the function as requests. -/
def Function.requests (ro : Rodata) (f : Function) : Bool := f.traced.enabled ro && f.takes

/-- The target calls a function, or its innermost call returns; `ok` is whether the call took the
lock, or gave it back.  Every reservation succeeds, and finds `mem`. -/
inductive Action where
  | call (fn : Function) (lock now : UInt64) (comm : Comm) (mem : LockEvent)
  | ret (ok : Bool) (now : UInt64) (comm : Comm) (mem : LockEvent)

def Action.now : Action → UInt64
  | .call _ _ now _ _ => now
  | .ret _ now _ _ => now

/-- The calls of the target, and what it holds. -/
abbrev Thread := Caller Function UInt64 UInt64

def act (ro : Rodata) (x : State × Thread) : Action → (State × Thread) × List LockEvent
  | .call fn lock now comm mem =>
    let (s, out) :=
      step ro x.1 (.enter fn ⟨ro.targetPid, comm⟩ lock now ⟨true, true, true⟩ (some mem))
    ((s, x.2.call (Function.requests ro) fn lock now), out)
  | .ret ok now comm mem =>
    match x.2.calls with
    -- there is no call to return from
    | [] => (x, [])
    | f :: _ =>
      let (s, out) := step ro x.1 (.exit f.fn ⟨ro.targetPid, comm⟩ now (some mem))
      ((s, x.2.ret Function.takes ok now), out)

/-- The tool and its target. -/
def target (ro : Rodata) : Machine (State × Thread) Action LockEvent :=
  ⟨(initial, Caller.idle), act ro⟩

namespace State

/-- The lock that the target is about to take. -/
def taking (ro : Rodata) (s : State) : Option UInt64 := s.procLock.lookup ro.targetPid

/-- The lock that the target is about to give back. -/
def giving (ro : Rodata) (s : State) : Option UInt64 := s.procUnlock.lookup ro.targetPid

def entry (ro : Rodata) (s : State) (p : UInt64) : Option LockEvent :=
  s.lock.lookup ⟨ro.targetPid, p⟩

end State

section Specification

variable (ro : Rodata)

/-- What the records say at the return of the call `f`. -/
def Tells (c : Thread) (f : PendingCall Function UInt64 UInt64) (ok : Bool) (r : LockEvent) :
    Prop :=
  if f.fn.takes then r.lockPtr = f.lock ∧ ok = true
  else ok = true ∧ ∃ h ∈ (c.held f.lock).head?, r.lockAcqTime = h.begun ∧ r.lockTime = h.acquired

/-- The record of a return names the lock that the call has taken, or carries the times of the
holding that it has ended. -/
def RecordTrue (pre : List Action) : Action → Prop
  | .call .. => True
  | .ret ok now comm mem =>
    ∀ r ∈ (target ro).emits pre (.ret ok now comm mem),
      ∀ f ∈ ((target ro).exec pre).2.calls.head?, Tells ((target ro).exec pre).2 f ok r

/-- A call that takes a lock does not fail while there is an entry to report.  A call that gives a
lock back while there is one gives back what the last request for the lock got, and no other lock
was requested until that request got it. -/
def Undisturbed (s : State) (c : Thread) : Action → Prop
  | .call .. => True
  | .ret ok .. =>
    ∀ f ∈ c.calls.head?, f.fn.traced.enabled ro = true →
      if f.fn.takes then ∀ _v ∈ (s.taking ro).bind (s.entry ro), ok = true
      else ∀ _v ∈ (s.giving ro).bind (s.entry ro), ok = true ∧ s.giving ro = some f.lock ∧
        ∃ h ∈ (c.held f.lock).head?, h.latest = true ∧ h.alone = true

instance (c : Thread) (f : PendingCall Function UInt64 UInt64) (ok : Bool) (r : LockEvent) :
    Decidable (Tells c f ok r) := inferInstanceAs (Decidable (ite _ _ _))

instance (pre : List Action) : DecidablePred (RecordTrue ro pre)
  | .call .. => isTrue trivial
  | .ret .. => inferInstanceAs (Decidable (∀ r ∈ _, ∀ f ∈ _, Tells _ f _ r))

instance (s : State) (c : Thread) : DecidablePred (Undisturbed ro s c)
  | .call .. => isTrue trivial
  | .ret ok .. => inferInstanceAs (Decidable (∀ f ∈ c.calls.head?, f.fn.traced.enabled ro = true →
      if f.fn.takes then ∀ _v ∈ (s.taking ro).bind (s.entry ro), ok = true
      else ∀ _v ∈ (s.giving ro).bind (s.entry ro), ok = true ∧ s.giving ro = some f.lock ∧
        ∃ h ∈ (c.held f.lock).head?, h.latest = true ∧ h.alone = true))

end Specification

section Probes

variable {ro : Rodata} {s : State} {fn : Function} {comm : Comm} {mem v w : LockEvent}
  {now p q : UInt64}

/-- The element of a call names a lock with an entry, or there is nothing to report. -/
theorem reports_or_not (ro : Rodata) (s : State) (element : Option UInt64) :
    (∃ p v, element = some p ∧ s.entry ro p = some v) ∨
      ∀ p v, element = some p → s.entry ro p ≠ some v := by
  by_cases h : ∃ p v, element = some p ∧ s.entry ro p = some v
  · exact Or.inl h
  · exact Or.inr fun p v hp hv => h ⟨p, v, hp, hv⟩

theorem entry_store (h : (s.lock.store ⟨ro.targetPid, p⟩ w).lookup ⟨ro.targetPid, q⟩ = some v) :
    q ≠ p ∧ s.entry ro q = some v ∨ q = p ∧ v = w := by
  by_cases hq : q = p
  · subst hq
    cases (BpfMap.lookup_store_self _ _ _).symm.trans h
    exact Or.inr ⟨rfl, rfl⟩
  · have hne : (⟨ro.targetPid, q⟩ : ProcLockptr) ≠ ⟨ro.targetPid, p⟩ := by simpa using hq
    exact Or.inl ⟨hq, (BpfMap.lookup_store_of_ne _ _ hne).symm.trans h⟩

theorem entry_delete (h : (s.lock.delete ⟨ro.targetPid, p⟩).lookup ⟨ro.targetPid, q⟩ = some v) :
    s.entry ro q = some v := by
  rw [BpfMap.lookup_delete] at h
  split_ifs at h
  exact h

theorem requests_iff : fn.requests ro = true ↔ fn.traced.enabled ro = true ∧ fn.takes = true := by
  rw [Function.requests, Bool.and_eq_true]

theorem takes_iff : fn.takes = true ↔ ∃ type, fn.traced.use = .locks type := by
  unfold Function.takes
  cases fn.traced.use <;> simp

/-- A request. -/
theorem enter_request (h : fn.requests ro = true) (s : State) (lock now : UInt64) (comm : Comm)
    (mem : LockEvent) :
    ∃ type, (step ro s (.enter fn ⟨ro.targetPid, comm⟩ lock now ⟨true, true, true⟩ (some mem))).1 =
      { s with
        procLock := s.procLock.store ro.targetPid lock
        lock := s.lock.store ⟨ro.targetPid, lock⟩
          ⟨type, ro.targetPid, comm, lock, now, 0, 0⟩ } := by
  obtain ⟨hen, htakes⟩ := requests_iff.mp h
  obtain ⟨type, huse⟩ := takes_iff.mp htakes
  exact ⟨type, by simp [step, hen, huse, recordLockEnter]⟩

/-- Any other call leaves both the element and the entries. -/
theorem enter_other (h : fn.requests ro = false) (s : State) (lock now : UInt64) (comm : Comm)
    (mem : LockEvent) :
    (step ro s (.enter fn ⟨ro.targetPid, comm⟩ lock now ⟨true, true, true⟩ (some mem))).1.procLock =
        s.procLock ∧
      (step ro s (.enter fn ⟨ro.targetPid, comm⟩ lock now ⟨true, true, true⟩ (some mem))).1.lock =
        s.lock := by
  cases hen : fn.traced.enabled ro with
  | false => simp [step, hen]
  | true =>
    cases huse : fn.traced.use with
    | locks type =>
      have hreq := requests_iff.mpr ⟨hen, takes_iff.mpr ⟨type, huse⟩⟩
      rw [h] at hreq
      cases hreq
    | unlocks => simp [step, hen, huse, recordUnlockEnter]

/-- The return of a call that the tool does not see. -/
theorem exit_untraced (h : fn.traced.enabled ro = false) (slot : Option LockEvent) :
    step ro s (.exit fn ⟨ro.targetPid, comm⟩ now slot) = (s, []) := by
  simp [step, h]

/-- The return of a request, with no entry to report. -/
theorem exit_request_idle (h : fn.requests ro = true)
    (hno : ∀ p v, s.taking ro = some p → s.entry ro p ≠ some v) :
    step ro s (.exit fn ⟨ro.targetPid, comm⟩ now (some mem)) = (s, []) := by
  obtain ⟨hen, htakes⟩ := requests_iff.mp h
  obtain ⟨type, huse⟩ := takes_iff.mp htakes
  simp only [step, hen, huse, recordLockExit, if_true]
  cases hp : s.procLock.lookup ro.targetPid with
  | none => rfl
  | some p =>
    have hnone : s.lock.lookup ⟨ro.targetPid, p⟩ = none :=
      Option.eq_none_iff_forall_ne_some.mpr fun v => hno p v hp
    simp only [hnone]

theorem exit_request (h : fn.requests ro = true) (hp : s.taking ro = some p)
    (hv : s.entry ro p = some v) :
    step ro s (.exit fn ⟨ro.targetPid, comm⟩ now (some mem)) =
      ({ s with
        lock := s.lock.store ⟨ro.targetPid, p⟩ { v with lockTime := now }
        procLock := s.procLock.delete ro.targetPid },
      [{ mem with
        type := v.type, pid := ro.targetPid, comm := comm, lockPtr := p
        lockAcqTime := v.lockAcqTime, lockTime := now }]) := by
  obtain ⟨hen, htakes⟩ := requests_iff.mp h
  obtain ⟨type, huse⟩ := takes_iff.mp htakes
  have hlookup : s.procLock.lookup ro.targetPid = some p := hp
  have hentry : s.lock.lookup ⟨ro.targetPid, p⟩ = some v := hv
  simp only [step, hen, huse, recordLockExit, hlookup, hentry, if_true]

/-- The return of a call that gives a lock back, with no entry to report. -/
theorem exit_unlock_idle (hen : fn.traced.enabled ro = true) (h : fn.takes = false)
    (hno : ∀ p v, s.giving ro = some p → s.entry ro p ≠ some v) :
    step ro s (.exit fn ⟨ro.targetPid, comm⟩ now (some mem)) = (s, []) := by
  cases huse : fn.traced.use with
  | locks type =>
    rw [takes_iff.mpr ⟨type, huse⟩] at h
    cases h
  | unlocks =>
    simp only [step, hen, huse, recordUnlockExit, if_true]
    cases hp : s.procUnlock.lookup ro.targetPid with
    | none => rfl
    | some p =>
      have hnone : s.lock.lookup ⟨ro.targetPid, p⟩ = none :=
        Option.eq_none_iff_forall_ne_some.mpr fun v => hno p v hp
      simp only [hnone]

theorem exit_unlock (hen : fn.traced.enabled ro = true) (h : fn.takes = false)
    (hp : s.giving ro = some p) (hv : s.entry ro p = some v) :
    step ro s (.exit fn ⟨ro.targetPid, comm⟩ now (some mem)) =
      ({ s with
        procUnlock := s.procUnlock.delete ro.targetPid
        lock := s.lock.delete ⟨ro.targetPid, p⟩ },
      [⟨v.type, ro.targetPid, comm, p, v.lockAcqTime, v.lockTime, now⟩]) := by
  cases huse : fn.traced.use with
  | locks type =>
    rw [takes_iff.mpr ⟨type, huse⟩] at h
    cases h
  | unlocks =>
    have hlookup : s.procUnlock.lookup ro.targetPid = some p := hp
    have hentry : s.lock.lookup ⟨ro.targetPid, p⟩ = some v := hv
    simp only [step, hen, huse, recordUnlockExit, hlookup, hentry, if_true]

end Probes

/-- What an action does to the element and the entries. -/
inductive Effect (ro : Rodata) (s : State) (c : Thread) : Action → State × Thread → Prop where
  | request {fn : Function} {lock now : UInt64} {comm : Comm} {mem : LockEvent} {s' : State}
      (hreq : fn.requests ro = true) (htaking : s'.taking ro = some lock)
      (hentry : ∀ p v, s'.entry ro p = some v →
        p ≠ lock ∧ s.entry ro p = some v ∨ p = lock ∧ v.lockAcqTime = now ∧ v.lockTime = 0) :
      Effect ro s c (.call fn lock now comm mem) (s', c.call (Function.requests ro) fn lock now)
  | unseen {fn : Function} {lock now : UInt64} {comm : Comm} {mem : LockEvent} {s' : State}
      (hreq : fn.requests ro = false) (htaking : s'.taking ro = s.taking ro)
      (hentry : ∀ p, s'.entry ro p = s.entry ro p) :
      Effect ro s c (.call fn lock now comm mem) (s', c.call (Function.requests ro) fn lock now)
  | idle {ok : Bool} {now : UInt64} {comm : Comm} {mem : LockEvent} (hcalls : c.calls = []) :
      Effect ro s c (.ret ok now comm mem) (s, c)
  -- an entry goes away, or none does
  | returns {ok : Bool} {now : UInt64} {comm : Comm} {mem : LockEvent} {s' : State}
      {f : PendingCall Function UInt64 UInt64} {rest : List (PendingCall Function UInt64 UInt64)}
      (hcalls : c.calls = f :: rest) (htaking : s'.taking ro = s.taking ro)
      (hentry : ∀ p v, s'.entry ro p = some v → s.entry ro p = some v)
      (hno : f.fn.requests ro = true → ∀ p v, s.taking ro = some p → s.entry ro p ≠ some v) :
      Effect ro s c (.ret ok now comm mem) (s', c.ret Function.takes ok now)
  -- an entry gets the time
  | acquires {ok : Bool} {now : UInt64} {comm : Comm} {mem : LockEvent} {s' : State}
      {f : PendingCall Function UInt64 UInt64} {rest : List (PendingCall Function UInt64 UInt64)}
      {p : UInt64} {v : LockEvent} (hcalls : c.calls = f :: rest) (hreq : f.fn.requests ro = true)
      (hp : s.taking ro = some p) (hv : s.entry ro p = some v) (htaking : s'.taking ro = none)
      (hentry : ∀ q w, s'.entry ro q = some w →
        q ≠ p ∧ s.entry ro q = some w ∨ q = p ∧ w = { v with lockTime := now }) :
      Effect ro s c (.ret ok now comm mem) (s', c.ret Function.takes ok now)

theorem call_effect (ro : Rodata) (s : State) (c : Thread) (fn : Function) (lock now : UInt64)
    (comm : Comm) (mem : LockEvent) :
    Effect ro s c (.call fn lock now comm mem) (act ro (s, c) (.call fn lock now comm mem)).1 := by
  cases hreq : fn.requests ro with
  | true =>
    obtain ⟨type, hs⟩ := enter_request hreq s lock now comm mem
    simp only [act]
    rw [hs]
    refine .request hreq (BpfMap.lookup_store_self _ _ _) fun p v hv => ?_
    rcases entry_store hv with hother | ⟨rfl, rfl⟩
    · exact Or.inl hother
    · exact Or.inr ⟨rfl, rfl, rfl⟩
  | false =>
    obtain ⟨hproc, hlock⟩ := enter_other hreq s lock now comm mem
    exact .unseen hreq (congrArg (fun m => m.lookup ro.targetPid) hproc)
      fun p => congrArg (fun m => m.lookup ⟨ro.targetPid, p⟩) hlock

theorem ret_effect {ro : Rodata} {s : State} {c : Thread}
    {f : PendingCall Function UInt64 UInt64} {rest : List (PendingCall Function UInt64 UInt64)}
    (hcalls : c.calls = f :: rest) (ok : Bool) (now : UInt64) (comm : Comm) (mem : LockEvent) :
    Effect ro s c (.ret ok now comm mem) (act ro (s, c) (.ret ok now comm mem)).1 := by
  simp only [act, hcalls]
  cases hen : f.fn.traced.enabled ro with
  | false =>
    rw [exit_untraced hen]
    refine .returns hcalls rfl (fun _ _ => id) fun hreq => ?_
    rw [(requests_iff.mp hreq).1] at hen
    cases hen
  | true =>
    cases htakes : f.fn.takes with
    | true =>
      have hreq := requests_iff.mpr ⟨hen, htakes⟩
      rcases reports_or_not ro s (s.taking ro) with ⟨p, v, hp, hv⟩ | hno
      · rw [exit_request hreq hp hv]
        exact .acquires hcalls hreq hp hv (BpfMap.lookup_delete_self _ _)
          fun q w hw => entry_store hw
      · rw [exit_request_idle hreq hno]
        exact .returns hcalls rfl (fun _ _ => id) fun _ => hno
    | false =>
      have hnot : f.fn.requests ro = true → ∀ p v, s.taking ro = some p →
          s.entry ro p ≠ some v := by
        intro hreq
        rw [(requests_iff.mp hreq).2] at htakes
        cases htakes
      rcases reports_or_not ro s (s.giving ro) with ⟨p, v, hp, hv⟩ | hno
      · rw [exit_unlock hen htakes hp hv]
        exact .returns hcalls rfl (fun q w hw => entry_delete hw) hnot
      · rw [exit_unlock_idle hen htakes hno]
        exact .returns hcalls rfl (fun _ _ => id) hnot

theorem act_effect (ro : Rodata) (s : State) (c : Thread) (a : Action) :
    Effect ro s c a (act ro (s, c) a).1 := by
  cases a with
  | call fn lock now comm mem => exact call_effect ro s c fn lock now comm mem
  | ret ok now comm mem =>
    cases hcalls : c.calls with
    | nil =>
      simp only [act, hcalls]
      exact .idle hcalls
    | cons f rest => exact ret_effect hcalls ok now comm mem

/-- The element names the innermost request while its entry is there, and an entry has the times of
the last request for its lock. -/
structure Tracks (ro : Rodata) (s : State) (c : Thread) : Prop where
  ordered : c.Ordered (Function.requests ro)
  named : ∀ p v, s.taking ro = some p → s.entry ro p = some v →
    ∃ k ∈ c.calls, k.alone = true ∧ k.lock = p
  pending : ∀ k ∈ c.calls, k.latest = true → ∀ v, s.entry ro k.lock = some v →
    v.lockAcqTime = k.begun ∧ v.lockTime = 0 ∧ (k.alone = true → s.taking ro = some k.lock)
  holding : ∀ p, ∀ h ∈ c.held p, h.latest = true → ∀ v, s.entry ro p = some v →
    v.lockAcqTime = h.begun ∧ v.lockTime = if h.alone then h.acquired else 0

section Tracks

variable {ro : Rodata} {s s' : State} {c : Thread} {fn : Function} {lock now p : UInt64}
  {f : PendingCall Function UInt64 UInt64} {rest : List (PendingCall Function UInt64 UInt64)}
  {v : LockEvent}

theorem tracks_initial : Tracks ro initial Caller.idle where
  ordered := Caller.ordered_idle
  named p v hp := by cases hp
  pending k hk := by cases hk
  holding p h hh := by cases hh

/-- The call that returns is the one that the element names. -/
theorem Tracks.returning (h : Tracks ro s c) (hcalls : c.calls = f :: rest)
    (hreq : f.fn.requests ro = true) (hp : s.taking ro = some p) (hv : s.entry ro p = some v) :
    f.lock = p ∧ f.alone = true := by
  obtain ⟨k, hk, halone, hlock⟩ := h.named p v hp hv
  rw [hcalls] at hk
  rcases List.mem_cons.mp hk with rfl | hk
  · exact ⟨hlock, halone⟩
  · rw [(h.ordered.outer hcalls hreq hk).1] at halone
    cases halone

/-- A request is entered. -/
theorem Tracks.request (h : Tracks ro s c) (hreq : fn.requests ro = true)
    (htaking : s'.taking ro = some lock)
    (hentry : ∀ p v, s'.entry ro p = some v →
      p ≠ lock ∧ s.entry ro p = some v ∨ p = lock ∧ v.lockAcqTime = now ∧ v.lockTime = 0) :
    Tracks ro s' (c.call (Function.requests ro) fn lock now) := by
  refine ⟨h.ordered.call fn lock now, ?_, ?_, ?_⟩
  · intro p v hp _
    -- the element names the lock of the new request
    rw [htaking] at hp
    cases hp
    rw [Caller.call, if_pos hreq]
    exact ⟨_, List.mem_cons_self, rfl, rfl⟩
  · intro k hk hl v hv
    rcases Caller.mem_calls_call hreq hk with rfl | ⟨k', hk', rfl⟩
    · rcases hentry _ v hv with ⟨hne, -⟩ | ⟨-, hacq, htime⟩
      · exact absurd rfl hne
      · exact ⟨hacq, htime, fun _ => htaking⟩
    · -- a call that stays the last request for its lock keeps its entry
      obtain ⟨hl, hne⟩ := Caller.passed_latest hl
      rcases hentry _ v hv with ⟨-, hv⟩ | ⟨heq, -⟩
      · obtain ⟨hacq, htime, -⟩ := h.pending k' hk' hl v hv
        exact ⟨hacq, htime, fun ha => by cases ha⟩
      · exact absurd heq hne
  · intro p i hi hl v hv
    rcases Caller.mem_held_call hreq hi with ⟨hne, hi⟩ | ⟨-, i', -, rfl⟩
    · rcases hentry p v hv with ⟨-, hv⟩ | ⟨heq, -⟩
      · exact h.holding p i hi hl v hv
      · exact absurd heq hne
    · cases hl

/-- A call that is not a request is entered. -/
theorem Tracks.unseen (h : Tracks ro s c) (hreq : fn.requests ro = false)
    (htaking : s'.taking ro = s.taking ro) (hentry : ∀ p, s'.entry ro p = s.entry ro p) :
    Tracks ro s' (c.call (Function.requests ro) fn lock now) := by
  refine ⟨h.ordered.call fn lock now, ?_, ?_, ?_⟩
  · intro p v hp hv
    rw [htaking] at hp
    rw [hentry] at hv
    obtain ⟨k, hk, hk'⟩ := h.named p v hp hv
    rw [Caller.call_unseen hreq]
    exact ⟨k, List.mem_cons_of_mem _ hk, hk'⟩
  · intro k hk hl v hv
    rw [Caller.call_unseen hreq] at hk
    rw [hentry] at hv
    rw [htaking]
    rcases List.mem_cons.mp hk with rfl | hk
    · cases hl
    · exact h.pending k hk hl v hv
  · intro p i hi hl v hv
    rw [Caller.call_unseen hreq] at hi
    rw [hentry] at hv
    exact h.holding p i hi hl v hv

/-- A call returns, and an entry goes away or none does. -/
theorem Tracks.returns (h : Tracks ro s c) (hcalls : c.calls = f :: rest) (ok : Bool)
    (now : UInt64) (htaking : s'.taking ro = s.taking ro)
    (hentry : ∀ p v, s'.entry ro p = some v → s.entry ro p = some v)
    (hno : f.fn.requests ro = true → ∀ p v, s.taking ro = some p → s.entry ro p ≠ some v) :
    Tracks ro s' (c.ret Function.takes ok now) := by
  have hmem := Caller.innermost_mem hcalls
  -- the request that returns without a record was passed by another one
  have hpassed : f.latest = true → ∀ v, s.entry ro f.lock = some v → f.alone = false := by
    intro hl v hv
    rw [Bool.eq_false_iff]
    intro ha
    exact hno (h.ordered.requested f hmem hl) f.lock v ((h.pending f hmem hl v hv).2.2 ha) hv
  refine ⟨h.ordered.ret Function.takes ok now, ?_, ?_, ?_⟩
  · intro p v hp hv
    rw [htaking] at hp
    obtain ⟨k, hk, ha, rfl⟩ := h.named p v hp (hentry p v hv)
    have hv' := hentry k.lock v hv
    rw [Caller.calls_ret hcalls]
    rw [hcalls] at hk
    rcases List.mem_cons.mp hk with rfl | hk
    · rw [hpassed (h.ordered.alone k hmem ha) v hv'] at ha
      cases ha
    · exact ⟨k, hk, ha, rfl⟩
  · intro k hk hl v hv
    rw [htaking]
    exact h.pending k (Caller.mem_of_mem_ret hcalls hk) hl v (hentry k.lock v hv)
  · intro p i hi hl v hv
    rcases Caller.mem_held_ret hcalls hi with hi | ⟨-, -, rfl, rfl⟩
    · exact h.holding p i hi hl v (hentry p v hv)
    · obtain ⟨hacq, htime, -⟩ := h.pending f hmem hl v (hentry f.lock v hv)
      refine ⟨hacq, ?_⟩
      rw [hpassed hl v (hentry f.lock v hv), if_neg Bool.false_ne_true]
      exact htime

/-- A request returns, and its entry gets the time. -/
theorem Tracks.acquires (h : Tracks ro s c) (hcalls : c.calls = f :: rest) (ok : Bool)
    (hreq : f.fn.requests ro = true) (hp : s.taking ro = some p) (hv : s.entry ro p = some v)
    (htaking : s'.taking ro = none)
    (hentry : ∀ q w, s'.entry ro q = some w →
      q ≠ p ∧ s.entry ro q = some w ∨ q = p ∧ w = { v with lockTime := now }) :
    Tracks ro s' (c.ret Function.takes ok now) := by
  have hmem := Caller.innermost_mem hcalls
  -- the entry is that of the call which returns
  obtain ⟨rfl, halone⟩ := h.returning hcalls hreq hp hv
  have hlatest := h.ordered.alone f hmem halone
  refine ⟨h.ordered.ret Function.takes ok now, ?_, ?_, ?_⟩
  · intro q w hq
    rw [htaking] at hq
    cases hq
  · intro k hk hl w hw
    rw [Caller.calls_ret hcalls] at hk
    obtain ⟨hnot, hother⟩ := h.ordered.outer hcalls hreq hk
    rcases hentry _ w hw with ⟨-, hw⟩ | ⟨heq, -⟩
    · have hcall : k ∈ c.calls := by rw [hcalls]; exact List.mem_cons_of_mem f hk
      obtain ⟨hacq, htime, -⟩ := h.pending k hcall hl w hw
      refine ⟨hacq, htime, fun ha => ?_⟩
      rw [hnot] at ha
      cases ha
    · exact absurd heq (hother hl)
  · intro q i hi hl w hw
    rcases Caller.mem_held_ret hcalls hi with hi | ⟨-, -, rfl, rfl⟩
    · rcases hentry q w hw with ⟨-, hw⟩ | ⟨rfl, -⟩
      · exact h.holding q i hi hl w hw
      · -- what was held of the lock before is older than the request
        rw [h.ordered.free f hmem hlatest i hi] at hl
        cases hl
    · rcases hentry f.lock w hw with ⟨hne, -⟩ | ⟨-, rfl⟩
      · exact absurd rfl hne
      · refine ⟨(h.pending f hmem hlatest v hv).1, ?_⟩
        rw [halone, if_pos rfl]

theorem Effect.tracks {a : Action} {x : State × Thread} (he : Effect ro s c a x)
    (h : Tracks ro s c) : Tracks ro x.1 x.2 := by
  cases he with
  | request hreq htaking hentry => exact h.request hreq htaking hentry
  | unseen hreq htaking hentry => exact h.unseen hreq htaking hentry
  | idle hcalls => exact h
  | returns hcalls htaking hentry hno => exact h.returns hcalls _ _ htaking hentry hno
  | acquires hcalls hreq hp hv htaking hentry =>
    exact h.acquires hcalls _ hreq hp hv htaking hentry

theorem tracks (ro : Rodata) (tr : List Action) :
    Tracks ro ((target ro).exec tr).1 ((target ro).exec tr).2 := by
  induction tr using List.reverseRecOn with
  | nil => exact tracks_initial
  | append_singleton pre a ih =>
    rw [Machine.exec_snoc]
    exact (act_effect ro _ _ a).tracks ih

end Tracks

section Records

variable {ro : Rodata} {s : State} {c : Thread} {ok : Bool} {now : UInt64} {comm : Comm}
  {mem : LockEvent} {f : PendingCall Function UInt64 UInt64}
  {rest : List (PendingCall Function UInt64 UInt64)}

/-- What it takes for the record of a return to be true. -/
theorem tells_ret (hcalls : c.calls = f :: rest) :
    (∀ r ∈ (act ro (s, c) (.ret ok now comm mem)).2, Tells c f ok r) ↔
      (f.fn.traced.enabled ro = true →
        if f.fn.takes then
          ∀ p v, s.taking ro = some p → s.entry ro p = some v → p = f.lock ∧ ok = true
        else ∀ p v, s.giving ro = some p → s.entry ro p = some v →
          ok = true ∧ ∃ h ∈ (c.held f.lock).head?,
            v.lockAcqTime = h.begun ∧ v.lockTime = h.acquired) := by
  simp only [act, hcalls, Tells]
  cases hen : f.fn.traced.enabled ro with
  | false => simp [exit_untraced hen]
  | true =>
    cases htakes : f.fn.takes with
    | true =>
      have hreq := requests_iff.mpr ⟨hen, htakes⟩
      simp only [if_true, true_implies]
      rcases reports_or_not ro s (s.taking ro) with ⟨p, v, hp, hv⟩ | hno
      · rw [exit_request hreq hp hv]
        simp only [List.mem_singleton, forall_eq]
        refine ⟨fun htells q w hq _ => ?_, fun hall => hall p v hp hv⟩
        rw [Option.some.inj (hq.symm.trans hp)]
        exact htells
      · rw [exit_request_idle hreq hno]
        exact ⟨fun _ p v hp hv => absurd hv (hno p v hp), fun _ r hr => by cases hr⟩
    | false =>
      simp only [Bool.false_eq_true, if_false, true_implies]
      rcases reports_or_not ro s (s.giving ro) with ⟨p, v, hp, hv⟩ | hno
      · rw [exit_unlock hen htakes hp hv]
        simp only [List.mem_singleton, forall_eq]
        refine ⟨fun htells q w hq hw => ?_, fun hall => hall p v hp hv⟩
        rw [Option.some.inj (hq.symm.trans hp)] at hw
        rw [Option.some.inj (hw.symm.trans hv)]
        exact htells
      · rw [exit_unlock_idle hen htakes hno]
        exact ⟨fun _ p v hp hv => absurd hv (hno p v hp), fun _ r hr => by cases hr⟩

/-- A return that is not disturbed makes a true record. -/
theorem Tracks.tells (h : Tracks ro s c) (hcalls : c.calls = f :: rest)
    (hu : Undisturbed ro s c (.ret ok now comm mem)) :
    ∀ r ∈ (act ro (s, c) (.ret ok now comm mem)).2, Tells c f ok r := by
  have hf := hu f (by rw [hcalls]; rfl)
  rw [tells_ret hcalls]
  intro hen
  specialize hf hen
  cases htakes : f.fn.takes with
  | true =>
    simp only [htakes, if_true] at hf ⊢
    intro p v hp hv
    exact ⟨(h.returning hcalls (requests_iff.mpr ⟨hen, htakes⟩) hp hv).1.symm,
      hf v (Option.bind_eq_some_iff.mpr ⟨p, hp, hv⟩)⟩
  | false =>
    simp only [htakes, Bool.false_eq_true, if_false] at hf ⊢
    intro p v hp hv
    obtain ⟨hok, hown, i, hi, hlatest, halone⟩ :=
      hf v (Option.bind_eq_some_iff.mpr ⟨p, hp, hv⟩)
    cases Option.some.inj (hown.symm.trans hp)
    obtain ⟨hacq, htime⟩ := h.holding f.lock i (List.mem_of_mem_head? hi) hlatest v hv
    rw [halone, if_pos rfl] at htime
    exact ⟨hok, i, hi, hacq, htime⟩

end Records

/-- The times `T` have gone by, and an entry tells the request that it is about from all others. -/
structure Timed (ro : Rodata) (T : UInt64 → Prop) (s : State) (c : Thread) : Prop where
  begun : ∀ k ∈ c.calls, T k.begun
  held : ∀ p, ∀ h ∈ c.held p, T h.begun ∧ T h.acquired
  entries : ∀ p v, s.entry ro p = some v → T v.lockAcqTime
  call : ∀ p v, s.entry ro p = some v → ∀ k ∈ c.calls, k.begun = v.lockAcqTime →
    k.lock = p ∧ k.latest = true
  holding : ∀ p v, s.entry ro p = some v → ∀ q, ∀ h ∈ c.held q, h.begun = v.lockAcqTime →
    q = p ∧ h.latest = true

section Timed

variable {ro : Rodata} {T : UInt64 → Prop} {s s' : State} {c : Thread} {ok : Bool} {now : UInt64}
  {comm : Comm} {mem : LockEvent} {f : PendingCall Function UInt64 UInt64}
  {rest : List (PendingCall Function UInt64 UInt64)}

theorem timed_initial : Timed ro T initial Caller.idle where
  begun k hk := by cases hk
  held p h hh := by cases hh
  entries p v hv := by cases hv
  call p v hv := by cases hv
  holding p v hv := by cases hv

theorem Timed.request (h : Timed ro T s c) (hnew : ¬ T now) {fn : Function} {lock : UInt64}
    (hreq : fn.requests ro = true)
    (hentry : ∀ p v, s'.entry ro p = some v →
      p ≠ lock ∧ s.entry ro p = some v ∨ p = lock ∧ v.lockAcqTime = now ∧ v.lockTime = 0) :
    Timed ro (fun t => T t ∨ t = now) s' (c.call (Function.requests ro) fn lock now) := by
  have hheld : ∀ p, ∀ i ∈ (c.call (Function.requests ro) fn lock now).held p,
      ∃ i' ∈ c.held p, i.begun = i'.begun ∧ i.acquired = i'.acquired ∧
        (p ≠ lock → i.latest = i'.latest) := by
    intro p i hi
    rcases Caller.mem_held_call hreq hi with ⟨-, hi⟩ | ⟨rfl, i', hi', rfl⟩
    · exact ⟨i, hi, rfl, rfl, fun _ => rfl⟩
    · exact ⟨i', hi', rfl, rfl, fun hne => absurd rfl hne⟩
  refine ⟨?_, ?_, ?_, ?_, ?_⟩
  · intro k hk
    rcases Caller.mem_calls_call hreq hk with rfl | ⟨k', hk', rfl⟩
    · exact Or.inr rfl
    · exact Or.inl (h.begun k' hk')
  · intro p i hi
    obtain ⟨i', hi', hbegun, hacquired, -⟩ := hheld p i hi
    rw [hbegun, hacquired]
    exact ⟨Or.inl (h.held p i' hi').1, Or.inl (h.held p i' hi').2⟩
  · intro p v hv
    rcases hentry p v hv with ⟨-, hv⟩ | ⟨-, hacq, -⟩
    · exact Or.inl (h.entries p v hv)
    · exact Or.inr hacq
  · intro p v hv k hk hkv
    -- an old entry cannot have the time of the new call, nor the new entry that of an old call
    rcases hentry p v hv with ⟨hp, hv⟩ | ⟨rfl, hacq, -⟩
    · rcases Caller.mem_calls_call hreq hk with rfl | ⟨k', hk', rfl⟩
      · have hT := h.entries p v hv
        rw [← hkv] at hT
        exact absurd hT hnew
      · obtain ⟨rfl, hl⟩ := h.call p v hv k' hk' hkv
        refine ⟨rfl, ?_⟩
        simp [PendingCall.passed, hl, hp]
    · rcases Caller.mem_calls_call hreq hk with rfl | ⟨k', hk', rfl⟩
      · exact ⟨rfl, rfl⟩
      · have hT := h.begun k' hk'
        rw [show k'.begun = now from hkv.trans hacq] at hT
        exact absurd hT hnew
  · intro p v hv q i hi hiv
    obtain ⟨i', hi', hbegun, -, hlatest⟩ := hheld q i hi
    rw [hbegun] at hiv
    rcases hentry p v hv with ⟨hp, hv⟩ | ⟨rfl, hacq, -⟩
    · obtain ⟨rfl, hl⟩ := h.holding p v hv q i' hi' hiv
      exact ⟨rfl, (hlatest hp).trans hl⟩
    · have hT := (h.held q i' hi').1
      rw [hiv.trans hacq] at hT
      exact absurd hT hnew

theorem Timed.unseen (h : Timed ro T s c) (hnew : ¬ T now) {fn : Function} {lock : UInt64}
    (hreq : fn.requests ro = false) (hentry : ∀ p, s'.entry ro p = s.entry ro p) :
    Timed ro (fun t => T t ∨ t = now) s' (c.call (Function.requests ro) fn lock now) := by
  rw [Caller.call_unseen hreq]
  refine ⟨?_, fun p i hi => ⟨Or.inl (h.held p i hi).1, Or.inl (h.held p i hi).2⟩, ?_, ?_, ?_⟩
  · intro k hk
    rcases List.mem_cons.mp hk with rfl | hk
    · exact Or.inr rfl
    · exact Or.inl (h.begun k hk)
  · intro p v hv
    rw [hentry] at hv
    exact Or.inl (h.entries p v hv)
  · intro p v hv k hk hkv
    rw [hentry] at hv
    rcases List.mem_cons.mp hk with rfl | hk
    · have hT := h.entries p v hv
      rw [← hkv] at hT
      exact absurd hT hnew
    · exact h.call p v hv k hk hkv
  · intro p v hv
    rw [hentry] at hv
    exact h.holding p v hv

/-- A call returns, and entries keep the time of their request. -/
theorem Timed.returns (h : Timed ro T s c) (hcalls : c.calls = f :: rest) (ok : Bool)
    (now : UInt64)
    (hentry : ∀ p w, s'.entry ro p = some w →
      ∃ v, s.entry ro p = some v ∧ w.lockAcqTime = v.lockAcqTime) :
    Timed ro (fun t => T t ∨ t = now) s' (c.ret Function.takes ok now) := by
  have hmem := Caller.innermost_mem hcalls
  refine ⟨fun k hk => Or.inl (h.begun k (Caller.mem_of_mem_ret hcalls hk)), ?_, ?_, ?_, ?_⟩
  · intro p i hi
    rcases Caller.mem_held_ret hcalls hi with hi | ⟨-, -, rfl, rfl⟩
    · exact ⟨Or.inl (h.held p i hi).1, Or.inl (h.held p i hi).2⟩
    · exact ⟨Or.inl (h.begun f hmem), Or.inr rfl⟩
  · intro p w hw
    obtain ⟨v, hv, hacq⟩ := hentry p w hw
    rw [hacq]
    exact Or.inl (h.entries p v hv)
  · intro p w hw k hk hkw
    obtain ⟨v, hv, hacq⟩ := hentry p w hw
    exact h.call p v hv k (Caller.mem_of_mem_ret hcalls hk) (hkw.trans hacq)
  · intro p w hw q i hi hiw
    obtain ⟨v, hv, hacq⟩ := hentry p w hw
    rcases Caller.mem_held_ret hcalls hi with hi | ⟨-, -, rfl, rfl⟩
    · exact h.holding p v hv q i hi (hiw.trans hacq)
    · exact h.call p v hv f hmem (hiw.trans hacq)

theorem Effect.timed {a : Action} {x : State × Thread} (he : Effect ro s c a x)
    (h : Timed ro T s c) (hnew : ¬ T a.now) : Timed ro (fun t => T t ∨ t = a.now) x.1 x.2 := by
  cases he with
  | request hreq _ hentry => exact h.request hnew hreq hentry
  | unseen hreq _ hentry => exact h.unseen hnew hreq hentry
  | idle hcalls =>
    exact ⟨fun k hk => Or.inl (h.begun k hk),
      fun p i hi => ⟨Or.inl (h.held p i hi).1, Or.inl (h.held p i hi).2⟩,
      fun p v hv => Or.inl (h.entries p v hv), h.call, h.holding⟩
  | returns hcalls _ hentry _ =>
    exact h.returns hcalls _ _ fun p v hv => ⟨v, hentry p v hv, rfl⟩
  | acquires hcalls hreq hp hv _ hentry =>
    refine h.returns hcalls _ _ fun q w hw => ?_
    rcases hentry q w hw with ⟨-, hw⟩ | ⟨rfl, rfl⟩
    · exact ⟨w, hw, rfl⟩
    · exact ⟨_, hv, rfl⟩

/-- On a clock that shows every time once. -/
theorem timed (ro : Rodata) {tr : List Action} (h : (tr.map Action.now).Nodup) :
    Timed ro (fun t => t ∈ tr.map Action.now) ((target ro).exec tr).1 ((target ro).exec tr).2 := by
  induction tr using List.reverseRecOn with
  | nil => exact timed_initial
  | append_singleton pre a ih =>
    rw [List.map_append, List.nodup_append] at h
    obtain ⟨hpre, -, hnew⟩ := h
    have hstep := (act_effect ro _ _ a).timed (ih hpre) fun ht =>
      hnew _ ht _ (List.mem_singleton_self _) rfl
    rw [Machine.exec_snoc]
    simp only [List.map_append, List.mem_append, List.map_cons, List.map_nil, List.mem_singleton]
    exact hstep

/-- A return that is disturbed makes a record that is not true. -/
theorem Timed.undisturbed (h : Timed ro T s c) (hpos : ¬ T 0) (ht : Tracks ro s c)
    (hcalls : c.calls = f :: rest)
    (htells : ∀ r ∈ (act ro (s, c) (.ret ok now comm mem)).2, Tells c f ok r) :
    Undisturbed ro s c (.ret ok now comm mem) := by
  rw [tells_ret hcalls] at htells
  intro f' hf' hen
  rw [hcalls] at hf'
  cases hf'
  specialize htells hen
  cases htakes : f.fn.takes with
  | true =>
    simp only [htakes, if_true] at htells ⊢
    intro v hv
    obtain ⟨p, hp, hv⟩ := Option.bind_eq_some_iff.mp hv
    exact (htells p v hp hv).2
  | false =>
    simp only [htakes, Bool.false_eq_true, if_false] at htells ⊢
    -- the time of the request shows which holding the record is about
    intro v hv
    obtain ⟨p, hp, hv⟩ := Option.bind_eq_some_iff.mp hv
    obtain ⟨hok, i, hi, hacq, htime⟩ := htells p v hp hv
    have hmem := List.mem_of_mem_head? hi
    obtain ⟨rfl, hlatest⟩ := h.holding p v hv f.lock i hmem hacq.symm
    refine ⟨hok, hp, i, hi, hlatest, ?_⟩
    -- a holding that another request has passed has no time in its entry
    by_contra halone
    have hzero := (ht.holding f.lock i hmem hlatest v hv).2
    rw [if_neg halone, htime] at hzero
    have hT := (h.held f.lock i hmem).2
    rw [hzero] at hT
    exact hpos hT

end Timed

/-- The records of returns are true while no return is disturbed; and when every time is shown once
and none is 0, they are true only then. -/
theorem records_true_undisturbed (ro : Rodata) (tr : List Action) :
    (Throughout
        (fun pre a => Undisturbed ro ((target ro).exec pre).1 ((target ro).exec pre).2 a) tr →
      Throughout (RecordTrue ro) tr) ∧
    ((0 :: tr.map Action.now).Nodup → Throughout (RecordTrue ro) tr →
      Throughout
        (fun pre a => Undisturbed ro ((target ro).exec pre).1 ((target ro).exec pre).2 a) tr) := by
  constructor
  · intro h pre a hp
    have hu := h pre a hp
    cases a with
    | call fn lock now comm mem => trivial
    | ret ok now comm mem =>
      intro r hr f hf
      cases hcalls : ((target ro).exec pre).2.calls with
      | nil =>
        rw [hcalls] at hf
        cases hf
      | cons f' rest =>
        rw [hcalls] at hf
        cases hf
        exact (tracks ro pre).tells hcalls hu r hr
  · intro hnow h pre a hp
    obtain ⟨hzero, hnodup⟩ := List.nodup_cons.mp hnow
    have hsub := (List.prefix_append pre [a]).trans hp |>.sublist.map Action.now
    cases a with
    | call fn lock now comm mem => trivial
    | ret ok now comm mem =>
      cases hcalls : ((target ro).exec pre).2.calls with
      | nil =>
        intro f hf
        rw [hcalls] at hf
        cases hf
      | cons f rest =>
        refine (timed ro (hnodup.sublist hsub)).undisturbed
          (fun hz => hzero (hsub.subset hz)) (tracks ro pre) hcalls fun r hr => ?_
        exact h pre _ hp r hr f (by rw [hcalls]; rfl)

/-- A call, with nothing in the memory of its record. -/
def Action.enters (fn : Function) (lock now : UInt64) : Action :=
  .call fn lock now Comm.none ⟨0, 0, Comm.none, 0, 0, 0, 0⟩

/-- A return, with nothing in the memory of its record. -/
def Action.leaves (ok : Bool) (now : UInt64) : Action :=
  .ret ok now Comm.none ⟨0, 0, Comm.none, 0, 0, 0, 0⟩

theorem records_true_undisturbed_two : Throughout (RecordTrue ⟨5, true, true, true, true⟩)
    [.enters .pthreadMutexLock 7 10, .leaves true 20, .enters .mutexLock 9 30, .leaves true 40,
      .enters .mutexUnlock 9 50, .leaves true 60, .enters .pthreadMutexUnlock 7 70,
      .leaves true 80] :=
  (records_true_undisturbed _ _).1 (by decide +kernel)

/-- An attempt fails; an attempt fails on the mutex 7 that the target holds; the target takes a
mutex of the kernel in the call that takes the mutex 7. -/
theorem records_false :
    ¬ Throughout (RecordTrue ⟨5, true, true, true, true⟩)
        [.enters .pthreadMutexTrylock 7 10, .leaves false 20] ∧
    ¬ Throughout (RecordTrue ⟨5, true, true, true, true⟩)
        [.enters .pthreadMutexLock 7 10, .leaves true 20, .enters .pthreadMutexTrylock 7 30,
          .leaves false 40, .enters .pthreadMutexUnlock 7 50, .leaves true 60] ∧
    ¬ Throughout (RecordTrue ⟨5, true, true, true, true⟩)
        [.enters .pthreadMutexLock 7 10, .enters .mutexLock 9 20, .leaves true 30,
          .enters .mutexUnlock 9 40, .leaves true 50, .leaves true 60,
          .enters .pthreadMutexUnlock 7 70, .leaves true 80] := by
  refine ⟨?_, ?_, ?_⟩ <;> decide +kernel

end CpuSubsystem.LockTool
