import CpuSubsystem.CpuWatcher.MqDelay.Soundness

/-!
# Which messages have their record

The return of `do_mq_timedsend` removes the element of its thread only if it finds one under the
address of the block.  There is none yet when the call fails before `load_msg`, and none any more
when a receive that stored the block has returned, whose record then has no time for the return.
-/

namespace CpuSubsystem.MqDelay

def Occ.time : Occ → Option UInt64
  | .sendEnter _ _ _ _ _ now _ | .sendExit _ now | .rcvEnter _ _ _ now _ | .rcvExit _ now _ _ =>
    some now
  | _ => none

/-- The clock counts from boot, and does not read 0 any more. -/
def Booted (tr : List Occ) : Prop := ∀ o ∈ tr, o.time ≠ some 0

instance (tr : List Occ) : Decidable (Booted tr) := inferInstanceAs (Decidable (∀ o ∈ tr, _))

def Timed (e : MqEvents) : Prop :=
  e.sendEnterTime ≠ 0 ∧ e.sendExitTime ≠ 0 ∧ e.rcvEnterTime ≠ 0 ∧ e.rcvExitTime ≠ 0

/-- When a send returns, its thread has no element. -/
def Cleared (c : MqCtrl) (pre : List Occ) : Occ → Prop
  | .sendExit p now =>
    ((tool c).exec (pre ++ [.sendExit p now])).sendMsg1.lookup p = none
  | _ => True

/-- A block that was sent and received has one record, which is printed, and no send leaves an
element behind. -/
structure Complete (c : MqCtrl) (old : List UInt64) (tr : List Occ) : Prop where
  once : ∀ (i : Nat) b, (world old tr).blocks[i]? = some b → b.call.isSome = true →
    b.returned.isSome = true → b.place = .released true true →
      ∃ pre o e, pre ++ [o] <+: tr ∧ (tool c).emits pre o = [e] ∧ Delivers old pre o i e ∧
        Timed e ∧ mqEvent e = .line e ∧
        ∀ pre' o' e', pre' ++ [o'] <+: tr → e' ∈ (tool c).emits pre' o' →
          Delivers old pre' o' i e' → pre' = pre
  cleared : Throughout (Cleared c) tr

/-- In the send of the thread `load_msg` has returned, and no receive that stored the block has. -/
def World.inTime (w : World) (p : Int) : Bool :=
  match w.phase p with
  | .failed _ _ => true
  | .loaded _ i => w.blocks[i]?.any fun b => !b.place.consumed
  | _ => false

def Timely (old : List UInt64) (pre : List Occ) : Occ → Prop
  | .sendExit p _ => (world old pre).inTime p = true
  | _ => True

instance (old : List UInt64) (pre : List Occ) : DecidablePred (Timely old pre)
  | .sendExit p _ => inferInstanceAs (Decidable ((world old pre).inTime p = true))
  | .sendEnter _ _ _ _ _ _ _ | .loadEnter _ _ | .loadExit _ _ _ | .post _ | .rcvEnter _ _ _ _ _
  | .take _ _ | .store _ _ _ _ _ | .rcvExit _ _ _ _ => inferInstanceAs (Decidable True)

theorem Timed.printed {e : MqEvents} (h : Timed e) : mqEvent e = .line e := by
  rw [mqEvent, if_neg]
  rintro (h0 | h0 | h0 | h0)
  · exact h.1 h0
  · exact h.2.1 h0
  · exact h.2.2.1 h0
  · exact h.2.2.2 h0

section Clock

/-- The time of the entry of the call in progress. -/
def Phase.start : Phase → Option UInt64
  | .idle => none
  | .entered c | .loading c | .failed c _ | .loaded c _ => some c.enterTime
  | .receiving c | .took c _ | .stored c _ => some c.enterTime

structure Clocked (w : World) : Prop where
  phases : ∀ p, (w.phase p).start ≠ some 0
  blocks : ∀ (i : Nat) b c, w.blocks[i]? = some b → b.call = some c →
    c.enterTime ≠ 0 ∧ b.returned ≠ some 0

variable {w : World} {s : State} {o : Occ} {i : Nat} {b' : Block}

theorem Change.kept {b : Block} (h : Change w i o b b') :
    b'.call = b.call ∧ (b'.returned = b.returned ∨ b'.returned = o.time) := by
  cases h with
  | back hx => exact ⟨rfl, Or.inr rfl⟩
  | _ => exact ⟨rfl, Or.inl rfl⟩

/-- A block comes from the same block before, or is new. -/
theorem Joined.change_back (h : Joined w s) (ha : Allowed w o)
    (hi : (w.step o).blocks[i]? = some b') :
    (∃ b, w.blocks[i]? = some b ∧ Change w i o b b') ∨
      ∃ p ret c, w.phase p = .loading c ∧ b' = ⟨ret, some c, .held, none⟩ := by
  cases hb : w.blocks[i]? with
  | some b =>
    obtain ⟨b'', hi', hchange⟩ := h.change ha hb
    rw [hi] at hi'
    cases hi'
    exact Or.inl ⟨b, rfl, hchange⟩
  | none =>
    right
    have hlen := List.getElem?_eq_none_iff.mp hb
    have hlt := (List.getElem?_eq_some_iff.mp hi).1
    by_cases hload : ∃ p ret room, o = .loadExit p ret room
    · obtain ⟨p, ret, room, rfl⟩ := hload
      obtain ⟨c, hx, -⟩ := allowed_loadExit ha
      simp only [World.step, hx] at hi
      split at hi
      · rw [become_blocks, hb] at hi
        cases hi
      · rw [List.getElem?_append_right hlen, List.getElem?_singleton] at hi
        split at hi
        · cases hi
          exact ⟨p, ret, c, hx, rfl⟩
        · cases hi
    · have hsame : (w.step o).blocks.length = w.blocks.length := by
        cases o with
        | loadExit p ret room => exact absurd ⟨p, ret, room, rfl⟩ hload
        | _ => simp only [World.step]; (try split) <;> simp [World.move]
      omega

theorem become_start {p : Int} {x : Phase} (h : ∀ q, (w.phase q).start ≠ some 0)
    (hx : x.start ≠ some 0) (q : Int) : ((w.become p x).phase q).start ≠ some 0 := by
  by_cases hq : q = p
  · rw [hq, become_phase_self]
    exact hx
  · rw [become_phase_other hq]
    exact h q

theorem Clocked.started {p : Int} {time : UInt64} (h : Clocked w)
    (hx : (w.phase p).start = some time) : some time ≠ some 0 := by
  rw [← hx]
  exact h.phases p

theorem Clocked.phases_step (h : Clocked w) (ha : Allowed w o) (ht : o.time ≠ some 0) (q : Int) :
    ((w.step o).phase q).start ≠ some 0 := by
  cases o with
  | sendEnter p mqdes uMsgPtr msgLen msgPrio now room =>
    apply become_start h.phases
    exact ht
  | rcvEnter p mqdes uMsgPtr now room =>
    apply become_start h.phases
    exact ht
  | loadEnter p src =>
    obtain ⟨c, hx, -⟩ := allowed_loadEnter ha
    simp only [World.step, hx]
    apply become_start h.phases
    exact h.started (congrArg Phase.start hx)
  | loadExit p ret room =>
    obtain ⟨c, hx, -⟩ := allowed_loadExit ha
    simp only [World.step, hx]
    split
    · apply become_start h.phases
      exact h.started (congrArg Phase.start hx)
    · show ((w.become p (.loaded c w.blocks.length)).phase q).start ≠ some 0
      apply become_start h.phases
      exact h.started (congrArg Phase.start hx)
  | post i => exact h.phases q
  | sendExit p now =>
    simp only [World.step]
    split <;> exact become_start h.phases (by simp [Phase.start]) q
  | take p i =>
    obtain ⟨c, b, hx, -⟩ := allowed_take ha
    simp only [World.step, hx, move_phase]
    apply become_start h.phases
    exact h.started (congrArg Phase.start hx)
  | store p dest msg mType mTs =>
    obtain ⟨c, i, b, hx, -⟩ := allowed_store ha
    simp only [World.step, hx]
    apply become_start h.phases
    exact h.started (congrArg Phase.start hx)
  | rcvExit p now ok slot =>
    simp only [World.step]
    split <;> exact become_start h.phases (by simp [Phase.start]) q

theorem Clocked.step (h : Clocked w) (hj : Joined w s) (ha : Allowed w o)
    (ht : o.time ≠ some 0) : Clocked (w.step o) := by
  refine ⟨h.phases_step ha ht, ?_⟩
  intro i b' c hi hcall
  rcases hj.change_back ha hi with ⟨b, hi', hchange⟩ | ⟨p, ret, c', hx, rfl⟩
  · obtain ⟨hsame, hret⟩ := hchange.kept
    rw [hsame] at hcall
    have hblock := h.blocks i b c hi' hcall
    rcases hret with hret | hret
    · rw [hret]
      exact hblock
    · rw [hret]
      exact ⟨hblock.1, ht⟩
  · cases hcall
    have hstart := h.started (congrArg Phase.start hx)
    exact ⟨fun h0 => hstart (congrArg some h0), fun hret => nomatch hret⟩

theorem clocked_run {old : List UInt64} {tr : List Occ} (h : MqRun old tr) (hb : Booted tr) :
    Clocked (world old tr) := by
  induction tr using List.reverseRecOn with
  | nil =>
    refine ⟨fun p => ?_, fun i b c hi hcall => ?_⟩
    · exact fun hstart => nomatch hstart
    · rw [world, List.foldl_nil, World.initial, List.getElem?_map, Option.map_eq_some_iff] at hi
      obtain ⟨addr, -, rfl⟩ := hi
      cases hcall
  | append_singleton pre o ih =>
    rw [world_snoc]
    have hpre := ih h.of_snoc fun x hx => hb x (List.mem_append_left [o] hx)
    exact hpre.step (joined_run ⟨true, 0⟩ h.of_snoc) h.allowed.last (hb o (by simp))

end Clock

section Run

variable {c : MqCtrl} {old : List UInt64} {pre tr : List Occ} {o : Occ}

theorem Booted.restrict (h : Booted tr) (hp : pre <+: tr) : Booted pre :=
  fun o ho => h o (hp.subset ho)

/-- The return of a send clears its thread exactly when it comes in time. -/
theorem cleared_iff (h : MqRun old (pre ++ [o])) : Cleared c pre o ↔ Timely old pre o := by
  have hj := joined_run c h.of_snoc
  cases o with
  | sendExit p now =>
    show ((tool c).exec (pre ++ [Occ.sendExit p now])).sendMsg1.lookup p = none ↔ _
    rw [(tool c).exec_snoc]
    show (doMqTimedsendExit ((tool c).exec pre) p now).sendMsg1.lookup p = none ↔ _
    rcases allowed_sendExit h.allowed.last with ⟨call, hx⟩ | ⟨call, err, hx⟩ | ⟨call, i, hx⟩
    · obtain ⟨-, hinfo⟩ : Followed _ ((tool c).exec pre) p (.entered call) := hx ▸ hj.threads p
      rw [doMqTimedsendExit_unknown hinfo hj.zero, hinfo]
      simp [Timely, World.inTime, hx]
    · obtain ⟨hinfo, -, hsome⟩ : Followed _ ((tool c).exec pre) p (.failed call err) :=
        hx ▸ hj.threads p
      obtain ⟨send2, hsend2⟩ := Option.isSome_iff_exists.mp hsome
      rw [doMqTimedsendExit_known hinfo hsend2]
      simp [Timely, World.inTime, hx]
    · obtain ⟨-, b, hi, hcall, hret, hinfo⟩ :
          Followed _ ((tool c).exec pre) p (.loaded call i) := hx ▸ hj.threads p
      have hlookup := hj.entry hi (busy_of_running hret)
      by_cases hgone : b.place.consumed = true
      · have hnone : ((tool c).exec pre).sendMsg2.lookup b.addr = none := by
          rw [hlookup, Block.entry, if_pos hgone]
        rw [doMqTimedsendExit_unknown hinfo hnone, hinfo]
        simp [Timely, World.inTime, hx, hi, hgone]
      · have hsome : ∃ send2, ((tool c).exec pre).sendMsg2.lookup b.addr = some send2 := by
          rw [hlookup, Block.entry, if_neg hgone, hcall]
          exact ⟨_, rfl⟩
        obtain ⟨send2, hsend2⟩ := hsome
        rw [doMqTimedsendExit_known hinfo hsend2]
        simp [Timely, World.inTime, hx, hi, hgone]
  | _ => exact Iff.rfl

/-- Every block that a receive stored and released has its record, which has the time at which the
send returned, once it has. -/
def Covered (c : MqCtrl) (old : List UInt64) (tr : List Occ) : Prop :=
  ∀ (i : Nat) b, (world old tr).blocks[i]? = some b → b.call.isSome = true →
    b.place.consumed = true → ∃ pre o e, pre ++ [o] <+: tr ∧ (tool c).emits pre o = [e] ∧
      Delivers old pre o i e ∧ e.sendEnterTime ≠ 0 ∧ e.rcvEnterTime ≠ 0 ∧ e.rcvExitTime ≠ 0 ∧
      (b.returned.isSome = true → e.sendExitTime ≠ 0)

theorem Covered.snoc (h : MqRun old (pre ++ [o])) (hb : Booted (pre ++ [o]))
    (ht : Timely old pre o) (hc : Covered c old pre) : Covered c old (pre ++ [o]) := by
  have hj := joined_run c h.of_snoc
  have hclock := clocked_run h.of_snoc (hb.restrict (List.prefix_append pre [o]))
  intro i b' hi hcall hgone
  rw [world_snoc] at hi
  rcases hj.change_back h.allowed.last hi with ⟨b, hi', hchange⟩ | ⟨p, ret, call, hx, rfl⟩
  · cases hchange with
    | same =>
      obtain ⟨pre', o', e, hp, hrest⟩ := hc i b' hi' hcall hgone
      exact ⟨pre', o', e, hp.trans (List.prefix_append pre [o]), hrest⟩
    | back hx =>
      -- the receive that stored the block has returned, so the send is late
      have hgone' : b.place.consumed = true := by
        cases hplace : b.place <;> simp_all [Block.back, Place.consumed]
      simp [Timely, World.inTime, hx, hi', hgone'] at ht
    | post hplace | take hplace | release hx hplace => cases hgone
    | @deliver q now ok slot r b hx hplace =>
      obtain rfl : slot = true := h.served _ (List.mem_append_right pre (List.mem_singleton_self _))
      obtain ⟨sent, hsent⟩ := Option.isSome_iff_exists.mp hcall
      obtain ⟨henter, hret⟩ := hclock.blocks i b sent hi' hsent
      have hstart := hclock.started (congrArg Phase.start hx)
      have hnow := hb (.rcvExit q now ok true) (by simp)
      refine ⟨pre, _, b.record sent r now, List.prefix_rfl, emits_stored h.of_snoc hx hi' hsent,
        ⟨q, now, ok, true, r, b, sent, rfl, hx, hi', hplace, hsent, rfl⟩, henter,
        fun h0 => hstart (congrArg some h0), fun h0 => hnow (congrArg some h0), ?_⟩
      intro hback
      obtain ⟨time, htime⟩ := Option.isSome_iff_exists.mp hback
      have hreturned : b.returned = some time := htime
      show b.returned.getD 0 ≠ 0
      rw [hreturned] at hret ⊢
      exact fun h0 => hret (congrArg some h0)
  · cases hgone

theorem covered_run (h : MqRun old tr) (hb : Booted tr) (ht : Throughout (Timely old) tr) :
    Covered c old tr := by
  induction tr using List.reverseRecOn with
  | nil =>
    intro i b hi hcall hgone
    rw [world, List.foldl_nil, World.initial, List.getElem?_map, Option.map_eq_some_iff] at hi
    obtain ⟨addr, -, rfl⟩ := hi
    cases hgone
  | append_singleton pre o ih =>
    have hpre := ih h.of_snoc (hb.restrict (List.prefix_append pre [o])) ht.of_snoc
    exact hpre.snoc h hb ht.last

/-- Every message has its record and every send clears its thread exactly when every send returns in
time. -/
theorem complete_iff (h : MqRun old tr) (hb : Booted tr) :
    Complete c old tr ↔ Throughout (Timely old) tr := by
  constructor
  · intro hc pre o hp
    exact (cleared_iff (h.restrict hp)).mp (hc.cleared pre o hp)
  · intro ht
    constructor
    · intro i b hi hcall hret hplace
      have hgone : b.place.consumed = true := by rw [hplace, Place.consumed]
      obtain ⟨pre, o, e, hp, hemits, hd, hsend, hrcv, hexit, hback⟩ :=
        covered_run (c := c) h hb ht i b hi hcall hgone
      have htimed : Timed e := ⟨hsend, hback hret, hrcv, hexit⟩
      refine ⟨pre, o, e, hp, hemits, hd, htimed, htimed.printed, ?_⟩
      intro pre' o' e' hp' _ hd'
      exact hd'.once h hd hp' hp
    · intro pre o hp
      exact (cleared_iff (h.restrict hp)).mpr (ht pre o hp)

theorem records_complete (c : MqCtrl) (old : List UInt64) (tr : List Occ) (h : MqRun old tr)
    (hb : Booted tr) : Complete c old tr ↔ Throughout (Timely old) tr :=
  complete_iff h hb

end Run

/-! ## Two runs -/

/-- A message is sent and received, the sender returns first, and another send fails. -/
def senderFirst : List Occ :=
  [.rcvEnter 2 7 200 9 true, .sendEnter 1 7 100 8 0 10 true, .loadEnter 1 100,
    .loadExit 1 4096 true, .post 0, .take 2 0, .sendExit 1 12, .sendEnter 1 7 100 8 0 13 true,
    .loadEnter 1 100, .loadExit 1 (-12) true, .store 2 200 4096 0 8, .rcvExit 2 14 true true,
    .sendExit 1 15]

theorem records_complete_senderFirst : Complete ⟨true, 0⟩ [] senderFirst := by
  have hrun : MqRun [] senderFirst := ⟨by simp, by decide, by decide⟩
  exact (records_complete ⟨true, 0⟩ [] senderFirst hrun (by decide)).mpr (by decide)

/-- A message is sent and received, and the receiver returns first. -/
def receiverFirst : List Occ :=
  [.rcvEnter 2 7 200 9 true, .sendEnter 1 7 100 8 0 10 true, .loadEnter 1 100,
    .loadExit 1 4096 true, .post 0, .take 2 0, .store 2 200 4096 0 8, .rcvExit 2 14 true true]

/-- The record has no time for the return of the send, which leaves its element behind. -/
theorem receiver_returns_first : ∃ tr, MqRun [] tr ∧ Booted tr ∧ ¬Complete ⟨true, 0⟩ [] tr ∧
    (∃ e, (tool ⟨true, 0⟩).emitted tr = [e] ∧ mqEvent e = .erro) ∧
    (((tool ⟨true, 0⟩).exec tr).sendMsg1.lookup 1).isSome = true := by
  have hrun : MqRun [] (receiverFirst ++ [Occ.sendExit 1 15]) := ⟨by simp, by decide, by decide⟩
  have hbooted : Booted (receiverFirst ++ [Occ.sendExit 1 15]) := by decide
  refine ⟨_, hrun, hbooted, ?_, ⟨⟨1, 2, 7, 8, 0, 10, 0, 9, 14⟩, by decide, by decide⟩, by decide⟩
  rw [complete_iff hrun hbooted]
  decide

end CpuSubsystem.MqDelay
