import CpuSubsystem.Lib.InFlight
import CpuSubsystem.ProcImage.SyscallImage.Probes

/-!
# Which call a delay belongs to

`sys_enter` stores the time of entry, and `sys_exit` subtracts it; the stored time is not removed
afterwards.  When the entry of a call was not seen, the time of an earlier call is still there.
-/

namespace CpuSubsystem.SyscallImage

/-- The exit of the thread ends its incarnation, and with it whatever call was in flight. -/
def callMark (p : Int) : Event → Option (Option UInt64)
  | .sysEnter cur now _ _ => if cur.pid = p then some (some now) else none
  | .sysExit cur _ _ => if cur.pid = p then some none else none
  | .schedProcessExit cur => if cur.pid = p then some none else none
  | .scCtrl _ => none

/-- The call in flight in the present incarnation of `p`, with its time of entry. -/
def callInFlight (p : Int) (tr : List Event) : Option (Nat × UInt64) := inFlight (callMark p) tr

/-- What `sys_exit` takes for the delay of the call that returns, when it takes one. -/
def chargedDelay (ro : Rodata) (s : State) (cur : Task) (now : UInt64) : Option UInt64 :=
  if traced ro s.scCtrlMap cur then
    (s.procSyscall.lookup cur.pid).map fun seq => now - seq.enterTime
  else none

/-- All that `sys_exit` does follows from that delay. -/
theorem sysExit_charged (ro : Rodata) (s : State) (cur : Task) (now : UInt64)
    (slot : Option SyscallSeq) :
    match chargedDelay ro s cur now with
    | none => sysExit ro s cur now slot = (s, [])
    | some d => ∃ seq, s.procSyscall.lookup cur.pid = some seq ∧
        ExitCase s cur slot (seq.charge d) (sysExit ro s cur now slot) := by
  unfold chargedDelay
  cases ht : traced ro s.scCtrlMap cur with
  | false => exact sysExit_untraced ro s cur now slot ht
  | true =>
    cases hl : s.procSyscall.lookup cur.pid with
    | none => exact sysExit_absent ro s cur now slot hl
    | some seq => exact ⟨seq, rfl, sysExit_present ro s cur now slot ht hl⟩

/-- The entry probe stores the time of entry. -/
def stores (ro : Rodata) (s : State) (cur : Task) (room : Bool) : Bool :=
  traced ro s.scCtrlMap cur && s.procSyscall.accepts room cur.pid

/-- Whether the entry of the call in flight was seen. -/
def see (ro : Rodata) (g : Int → Bool) (s : State) : Event → Int → Bool
  | .sysEnter cur _ _ room => Function.update g cur.pid (stores ro s cur room)
  | .sysExit cur _ _ => Function.update g cur.pid false
  | .schedProcessExit cur => Function.update g cur.pid false
  | .scCtrl _ => g

def seen (ro : Rodata) (c : ScCtrl) (tr : List Event) : Int → Bool :=
  (machine ro c).ghost (fun _ => false) (see ro) tr

/-- The delay is the time since the entry of the call that returns. -/
def DelayRight (ro : Rodata) (c : ScCtrl) (pre : List Event) : Event → Prop
  | .sysExit cur now _ =>
      ∀ d ∈ chargedDelay ro ((machine ro c).exec pre) cur now,
        ∃ a ∈ callInFlight cur.pid pre, d = now - a.2
  | _ => True

/-- A delay is only taken for a call whose entry was seen. -/
def EntrySeen (ro : Rodata) (c : ScCtrl) (pre : List Event) : Event → Prop
  | .sysExit cur now _ =>
      (chargedDelay ro ((machine ro c).exec pre) cur now).isSome = true →
        seen ro c pre cur.pid = true
  | _ => True

/-- What is stored for a call whose entry was seen. -/
def Stored (p : Int) (tr : List Event) (s : State) : Prop :=
  ∃ i t seq, callInFlight p tr = some (i, t) ∧ s.procSyscall.lookup p = some seq ∧
    seq.enterTime = t

theorem sysEnter_stored (ro : Rodata) (s : State) (cur : Task) (now : UInt64) (id : Int)
    (room : Bool) (h : stores ro s cur room = true) :
    ∃ seq, (sysEnter ro s cur now id room).procSyscall.lookup cur.pid = some seq ∧
      seq.enterTime = now := by
  rw [stores, Bool.and_eq_true] at h
  obtain ⟨ht, hacc⟩ := h
  cases hl : s.procSyscall.lookup cur.pid with
  | none =>
    rw [sysEnter_absent ro s cur now id room ht hl, BpfMap.update_of_accepts _ hacc]
    exact ⟨_, BpfMap.lookup_store_self _ _ _, rfl⟩
  | some seq =>
    rw [sysEnter_present ro s cur now id room ht hl]
    exact ⟨_, State.put_lookup_self _ _ _, SyscallSeq.enter_enterTime _ _ _ _⟩

/-- Events of other threads. -/
theorem Stored.frame {p : Int} {pre : List Event} {e : Event} {s s' : State}
    (h : Stored p pre s) (hm : callMark p e = none)
    (hl : s'.procSyscall.lookup p = s.procSyscall.lookup p) : Stored p (pre ++ [e]) s' := by
  obtain ⟨i, t, seq, hf, hs, ht⟩ := h
  exact ⟨i, t, seq, (inFlight_snoc_skip hm).trans hf, hl.trans hs, ht⟩

theorem seen_stored (ro : Rodata) (c : ScCtrl) (tr : List Event) (p : Int)
    (h : seen ro c tr p = true) : Stored p tr ((machine ro c).exec tr) := by
  induction tr using List.reverseRecOn with
  | nil => cases h
  | append_singleton pre e ih =>
    rw [seen, Machine.ghost_snoc] at h
    rw [Machine.exec_snoc]
    have hseen : (machine ro c).ghost (fun _ => false) (see ro) pre = seen ro c pre := rfl
    rw [hseen] at h
    generalize (machine ro c).exec pre = s at h ih ⊢
    cases e with
    | scCtrl c' => exact (ih h).frame rfl rfl
    | sysEnter cur now id room =>
      by_cases hp : p = cur.pid
      · subst hp
        simp only [see, Function.update_self] at h
        obtain ⟨seq, hl, ht⟩ := sysEnter_stored ro s cur now id room h
        exact ⟨pre.length, now, seq, inFlight_snoc_begin (if_pos rfl), hl, ht⟩
      · simp only [see, Function.update_of_ne hp] at h
        exact (ih h).frame (if_neg (Ne.symm hp))
          ((sysEnter_frame ro s cur now id room).2.2.2 p hp)
    | sysExit cur now slot =>
      by_cases hp : p = cur.pid
      · subst hp
        simp only [see, Function.update_self] at h
        cases h
      · simp only [see, Function.update_of_ne hp] at h
        exact (ih h).frame (if_neg (Ne.symm hp)) ((sysExit_frame ro s cur now slot).2.1 p hp)
    | schedProcessExit cur =>
      by_cases hp : p = cur.pid
      · subst hp
        simp only [see, Function.update_self] at h
        cases h
      · simp only [see, Function.update_of_ne hp] at h
        refine (ih h).frame (if_neg (Ne.symm hp)) ?_
        change (schedProcessExit s cur).procSyscall.lookup p = _
        unfold schedProcessExit
        split
        · exact BpfMap.lookup_delete_of_ne _ hp
        · rfl

/-- The entry of a call in flight is an entry of that thread. -/
theorem callMark_begun {p q : Int} {e : Event} {t t' : UInt64}
    (h : callMark p e = some (some t)) (h' : callMark q e = some (some t')) : p = q := by
  cases e with
  | scCtrl c => cases h
  | sysEnter cur now id room =>
    simp only [callMark] at h h'
    split at h
    · rename_i hp
      split at h'
      · rename_i hq
        exact hp.symm.trans hq
      · cases h'
    · cases h
  | sysExit cur now slot =>
    simp only [callMark] at h
    split at h <;> cases h
  | schedProcessExit cur =>
    simp only [callMark] at h
    split at h <;> cases h

/-- One call is in flight in one thread only. -/
theorem callInFlight_pid {tr pre pre' : List Event} {p q : Int} {i : Nat} {t t' : UInt64}
    (hp : pre <+: tr) (hp' : pre' <+: tr) (h : callInFlight p pre = some (i, t))
    (h' : callInFlight q pre' = some (i, t')) : p = q := by
  obtain ⟨x, hx, hmx⟩ := inFlight_begun h
  obtain ⟨y, hy, hmy⟩ := inFlight_begun h'
  have hpx := hp.getElem (inFlight_lt h)
  have hpy := hp'.getElem (inFlight_lt h')
  rw [List.getElem?_eq_some_iff] at hx hy
  obtain ⟨_, hx⟩ := hx
  obtain ⟨_, hy⟩ := hy
  have hxy : x = y := by rw [← hx, ← hy, hpx, hpy]
  rw [← hxy] at hmy
  exact callMark_begun hmx hmy

/-- As long as delays are taken for calls whose entry was seen, each is the time since the entry of
the call that returns. -/
theorem delayRight_of_seen (ro : Rodata) (c : ScCtrl) (tr : List Event)
    (h : Throughout (EntrySeen ro c) tr) : Throughout (DelayRight ro c) tr := by
  intro pre e hp
  have he := h pre e hp
  cases e with
  | scCtrl c' => trivial
  | sysEnter cur now id room => trivial
  | schedProcessExit cur => trivial
  | sysExit cur now slot =>
    intro d hd
    obtain ⟨i, t, seq, hf, hl, ht⟩ :=
      seen_stored ro c pre cur.pid (he (Option.isSome_iff_exists.mpr ⟨d, hd⟩))
    refine ⟨(i, t), hf, ?_⟩
    unfold chargedDelay at hd
    split at hd
    · rw [hl] at hd
      cases hd
      exact congrArg (now - ·) ht
    · cases hd

/-- The call that returns was not in flight at an earlier return. -/
theorem callInFlight_fresh {pre pre' : List Event} {cur cur' : Task} {now : UInt64}
    {slot : Option SyscallSeq} {i i' : Nat} {t t' : UInt64}
    (hp : pre' ++ [.sysExit cur' now slot] <+: pre)
    (h' : callInFlight cur'.pid pre' = some (i', t')) (h : callInFlight cur.pid pre = some (i, t)) :
    i' ≠ i := by
  rintro rfl
  have hpid := callInFlight_pid ((List.prefix_append pre' _).trans hp) List.prefix_rfl h' h
  rw [← hpid] at h
  obtain ⟨post, rfl⟩ := hp
  have hend : callMark cur'.pid (.sysExit cur' now slot) = some none := if_pos rfl
  have hafter := inFlight_after_end hend h
  have hbefore := inFlight_lt h'
  omega

instance (ro : Rodata) (c : ScCtrl) (pre : List Event) : ∀ e, Decidable (EntrySeen ro c pre e)
  | .sysExit .. => inferInstanceAs (Decidable (_ = true → _ = true))
  | .scCtrl _ | .sysEnter .. | .schedProcessExit _ => isTrue trivial

instance (ro : Rodata) (c : ScCtrl) (pre : List Event) : ∀ e, Decidable (DelayRight ro c pre e)
  -- the search over an option, not over all times
  | .sysExit cur now _ =>
      @Option.decidableForallMem _ (fun d => ∃ a ∈ callInFlight cur.pid pre, d = now - a.2)
        (fun _ => Option.decidableExistsMem _) (chargedDelay ro ((machine ro c).exec pre) cur now)
  | .scCtrl _ | .sysEnter .. | .schedProcessExit _ => isTrue trivial

end CpuSubsystem.SyscallImage
