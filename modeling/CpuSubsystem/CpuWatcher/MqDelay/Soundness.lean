import CpuSubsystem.CpuWatcher.MqDelay.Joins

/-!
# The records of message queues come from messages

A record is emitted when a receive returns that has stored a block of the run, and it joins the
calls that handled the block.  A block that a receive released is never stored again, so that no
two records are about the same block.
-/

namespace CpuSubsystem.MqDelay

/-- The record of a block that the send `c` made, when the receive `r` returns. -/
def Block.record (b : Block) (c : SendCall) (r : RcvCall) (rcvExitTime : UInt64) : MqEvents :=
  { sendPid := c.pid, rcvPid := r.pid, mqdes := c.mqdes, msgLen := c.msgLen, msgPrio := c.msgPrio,
    sendEnterTime := c.enterTime, sendExitTime := b.returned.getD 0, rcvEnterTime := r.enterTime,
    rcvExitTime }

/-- The receive call that took and stored the block `i` returns, and `e` joins it with the send. -/
def Delivers (old : List UInt64) (pre : List Occ) (o : Occ) (i : Nat) (e : MqEvents) : Prop :=
  ∃ q now ok slot r b c, o = .rcvExit q now ok slot ∧ (world old pre).phase q = .stored r i ∧
    (world old pre).blocks[i]? = some b ∧ b.place = .taken q ∧ b.call = some c ∧
      e = b.record c r now

/-- Every record is of one block, and no block has two of them. -/
structure Sound (c : MqCtrl) (old : List UInt64) (tr : List Occ) : Prop where
  each : Throughout (fun pre o => (tool c).emits pre o = [] ∨
    ∃ e, (tool c).emits pre o = [e] ∧ ∃! i, Delivers old pre o i e) tr
  once : ∀ pre o pre' o' i e e', pre ++ [o] <+: tr → pre' ++ [o'] <+: tr →
    e ∈ (tool c).emits pre o → e' ∈ (tool c).emits pre' o' → Delivers old pre o i e →
      Delivers old pre' o' i e' → pre = pre'

/-- What an occurrence does to the block `i`. -/
inductive Change (w : World) (i : Nat) : Occ → Block → Block → Prop
  | same {o : Occ} {b : Block} : Change w i o b b
  | post {b : Block} (hplace : b.place = .held) :
      Change w i (.post i) b { b with place := .queued }
  | back {p : Int} {now : UInt64} {c : SendCall} {b : Block} (hx : w.phase p = .loaded c i) :
      Change w i (.sendExit p now) b (b.back now)
  | take {q : Int} {b : Block} (hplace : b.place = .queued) :
      Change w i (.take q i) b { b with place := .taken q }
  | release {q : Int} {now : UInt64} {ok slot : Bool} {r : RcvCall} {b : Block}
      (hx : w.phase q = .took r i) (hplace : b.place = .taken q) :
      Change w i (.rcvExit q now ok slot) b { b with place := .released false ok }
  | deliver {q : Int} {now : UInt64} {ok slot : Bool} {r : RcvCall} {b : Block}
      (hx : w.phase q = .stored r i) (hplace : b.place = .taken q) :
      Change w i (.rcvExit q now ok slot) b { b with place := .released true ok }

section Changes

variable {w : World} {s : State} {o : Occ} {i : Nat} {b : Block}

theorem Change.of_modify {k : Nat} {f : Block → Block} (hi : w.blocks[i]? = some b)
    (hf : k = i → Change w i o b (f b)) :
    ∃ b', (w.blocks.modify k f)[i]? = some b' ∧ Change w i o b b' := by
  rw [List.getElem?_modify, hi]
  by_cases hik : k = i
  · exact ⟨f b, by simp [hik], hf hik⟩
  · exact ⟨b, by simp [hik], .same⟩

/-- The block that is modified is known by its place. -/
theorem Change.of_place {k : Nat} {f : Block → Block} {a : Block} {place : Place}
    (hi : w.blocks[i]? = some b) (hk : w.blocks[k]? = some a) (hplace : a.place = place)
    (hf : k = i → b.place = place → Change w i o b (f b)) :
    ∃ b', (w.blocks.modify k f)[i]? = some b' ∧ Change w i o b b' := by
  apply Change.of_modify hi
  rintro rfl
  rw [hi] at hk
  cases hk
  exact hf rfl hplace

/-- A block stays under its number. -/
theorem Joined.change (h : Joined w s) (ha : Allowed w o) (hi : w.blocks[i]? = some b) :
    ∃ b', (w.step o).blocks[i]? = some b' ∧ Change w i o b b' := by
  cases o with
  | sendEnter p mqdes uMsgPtr msgLen msgPrio now room => exact ⟨b, hi, .same⟩
  | rcvEnter q mqdes uMsgPtr now room => exact ⟨b, hi, .same⟩
  | loadEnter p src =>
    obtain ⟨c, hx, -⟩ := allowed_loadEnter ha
    refine ⟨b, ?_, .same⟩
    simp only [World.step, hx]
    exact hi
  | loadExit p ret room =>
    obtain ⟨c, hx, -⟩ := allowed_loadExit ha
    refine ⟨b, ?_, .same⟩
    simp only [World.step, hx]
    split
    · exact hi
    · show (w.blocks ++ [_])[i]? = some b
      rw [List.getElem?_append_left (List.getElem?_eq_some_iff.mp hi).1]
      exact hi
  | post k =>
    show ∃ b', (w.blocks.modify k _)[i]? = some b' ∧ _
    obtain ⟨a, hk, hplace⟩ := Option.map_eq_some_iff.mp ha
    apply Change.of_place hi hk hplace
    rintro rfl hplace
    exact .post hplace
  | sendExit p now =>
    rcases allowed_sendExit ha with ⟨c, hx⟩ | ⟨c, err, hx⟩ | ⟨c, k, hx⟩
    · refine ⟨b, ?_, .same⟩
      simp only [World.step, hx]
      exact hi
    · refine ⟨b, ?_, .same⟩
      simp only [World.step, hx]
      exact hi
    · simp only [World.step, hx]
      apply Change.of_modify hi
      rintro rfl
      exact .back hx
  | take q k =>
    obtain ⟨r, a, hx, hk, hplace⟩ := allowed_take ha
    simp only [World.step, hx]
    show ∃ b', (w.blocks.modify k _)[i]? = some b' ∧ _
    apply Change.of_place hi hk hplace
    rintro rfl hplace
    exact .take hplace
  | store q dest msg mType mTs =>
    obtain ⟨r, k, a, hx, -⟩ := allowed_store ha
    refine ⟨b, ?_, .same⟩
    simp only [World.step, hx]
    exact hi
  | rcvExit q now ok slot =>
    rcases allowed_rcvExit ha with ⟨r, hx⟩ | ⟨r, k, hx⟩ | ⟨r, k, hx⟩
    · refine ⟨b, ?_, .same⟩
      simp only [World.step, hx]
      exact hi
    · obtain ⟨-, -, a, hk, hplace⟩ : Followed w s q (.took r k) := hx ▸ h.threads q
      simp only [World.step, hx]
      show ∃ b', (w.blocks.modify k _)[i]? = some b' ∧ _
      apply Change.of_place hi hk hplace
      rintro rfl hplace
      exact .release hx hplace
    · obtain ⟨-, a, -, hk, hplace, -⟩ : Followed w s q (.stored r k) := hx ▸ h.threads q
      simp only [World.step, hx]
      show ∃ b', (w.blocks.modify k _)[i]? = some b' ∧ _
      apply Change.of_place hi hk hplace
      rintro rfl hplace
      exact .deliver hx hplace

theorem Change.released {b' : Block} {stored ok : Bool} (h : Change w i o b b')
    (hplace : b.place = .released stored ok) : b'.place = .released stored ok := by
  cases h with
  | same => exact hplace
  | back hx => simp [Block.back, hplace]
  | post hp | take hp => exact absurd (hplace.symm.trans hp) (by simp)
  | release hx hp | deliver hx hp => exact absurd (hplace.symm.trans hp) (by simp)

end Changes

section Run

variable {c : MqCtrl} {old : List UInt64} {pre tr : List Occ} {o : Occ} {i : Nat} {e : MqEvents}

/-- A released block stays released. -/
theorem released_append {post : List Occ} (h : MqRun old (pre ++ post)) {b : Block}
    {stored ok : Bool} (hi : (world old pre).blocks[i]? = some b)
    (hplace : b.place = .released stored ok) :
    ∃ b', (world old (pre ++ post)).blocks[i]? = some b' ∧ b'.place = .released stored ok := by
  induction post using List.reverseRecOn with
  | nil =>
    rw [List.append_nil]
    exact ⟨b, hi, hplace⟩
  | append_singleton post o ih =>
    rw [← List.append_assoc] at h ⊢
    obtain ⟨b', hi', hplace'⟩ := ih h.of_snoc
    obtain ⟨b'', hi'', hchange⟩ := (joined_run ⟨true, 0⟩ h.of_snoc).change h.allowed.last hi'
    rw [world_snoc]
    exact ⟨b'', hi'', hchange.released hplace'⟩

/-- Without an element of a send nothing is emitted. -/
theorem emits_unknown {q : Int} {now : UInt64} {ok slot : Bool} {rcv : RcvEvents}
    (hinfo : ((tool c).exec pre).rcvMsg1.lookup q = some rcv)
    (hk : ((tool c).exec pre).sendMsg2.lookup rcv.keyMsgPtr = none) :
    (tool c).emits pre (.rcvExit q now ok slot) = [] :=
  congrArg Prod.snd (doMqTimedreceiveExit_unknown hinfo hk)

/-- A receive that stored a block of the run emits the record of the block. -/
theorem emits_stored {q : Int} {now : UInt64} {ok : Bool} {r : RcvCall} {b : Block}
    {sent : SendCall} (h : MqRun old pre) (hx : (world old pre).phase q = .stored r i)
    (hi : (world old pre).blocks[i]? = some b) (hcall : b.call = some sent) :
    (tool c).emits pre (.rcvExit q now ok true) = [b.record sent r now] := by
  have hj := joined_run c h
  obtain ⟨hpid, b', rcv, hi', hplace, hinfo, hkey, htime⟩ :
      Followed _ ((tool c).exec pre) q (.stored r i) := hx ▸ hj.threads q
  obtain rfl : b = b' := Option.some.inj (hi.symm.trans hi')
  have hlookup := hj.entry hi (busy_of_taken hplace)
  have hentry : ((tool c).exec pre).sendMsg2.lookup rcv.keyMsgPtr =
      some (sent.info b.addr sent.uMsgPtr (b.returned.getD 0)) := by
    rw [hkey, Block.key, hcall, Option.isSome_some, if_pos rfl, hlookup, Block.entry, hplace, hcall]
    rfl
  show (doMqTimedreceiveExit ((tool c).exec pre) q now true).2 = _
  rw [doMqTimedreceiveExit_known hinfo hentry]
  simp [joined, Block.record, SendCall.info, hpid, htime]

/-- What is emitted at an occurrence. -/
theorem emits_cases (h : MqRun old (pre ++ [o])) :
    (tool c).emits pre o = [] ∨ ∃ i e, (tool c).emits pre o = [e] ∧ Delivers old pre o i e := by
  have hj := joined_run c h.of_snoc
  cases o with
  | rcvExit q now ok slot =>
    obtain rfl : slot = true := h.served _ (List.mem_append_right pre (List.mem_singleton_self _))
    rcases allowed_rcvExit h.allowed.last with ⟨r, hx⟩ | ⟨r, i, hx⟩ | ⟨r, i, hx⟩
    · obtain ⟨-, hinfo⟩ : Followed _ ((tool c).exec pre) q (.receiving r) := hx ▸ hj.threads q
      exact Or.inl (emits_unknown hinfo hj.zero)
    · obtain ⟨-, hinfo, -⟩ : Followed _ ((tool c).exec pre) q (.took r i) := hx ▸ hj.threads q
      exact Or.inl (emits_unknown hinfo hj.zero)
    · obtain ⟨-, b, rcv, hi, hplace, hinfo, hkey, -⟩ :
          Followed _ ((tool c).exec pre) q (.stored r i) := hx ▸ hj.threads q
      cases hcall : b.call with
      | none =>
        -- the block was there before the run
        have hzero : rcv.keyMsgPtr = 0 := by simp [hkey, Block.key, hcall]
        left
        apply emits_unknown hinfo
        rw [hzero, hj.zero]
      | some sent =>
        right
        exact ⟨i, _, emits_stored h.of_snoc hx hi hcall, q, now, ok, true, r, b, sent, rfl, hx, hi,
          hplace, hcall, rfl⟩
  | _ => exact Or.inl rfl

theorem Delivers.unique {j : Nat} {e' : MqEvents} (h : Delivers old pre o i e)
    (h' : Delivers old pre o j e') : j = i := by
  obtain ⟨q, now, ok, slot, r, b, sent, rfl, hx, -⟩ := h
  obtain ⟨q', now', ok', slot', r', b', sent', heq, hx', -⟩ := h'
  cases heq
  rw [hx] at hx'
  cases hx'
  rfl

/-- After the return the block is released. -/
theorem Delivers.released (h : Delivers old pre o i e) :
    ∃ b ok, (world old (pre ++ [o])).blocks[i]? = some b ∧ b.place = .released true ok := by
  obtain ⟨q, now, ok, slot, r, b, sent, rfl, hx, hi, -⟩ := h
  refine ⟨{ b with place := .released true ok }, ok, ?_, rfl⟩
  rw [world_snoc]
  simp only [World.step, hx]
  show ((world old pre).blocks.modify i _)[i]? = _
  rw [List.getElem?_modify, hi]
  simp

/-- A block is not delivered when it was before. -/
theorem Delivers.not_later {pre' : List Occ} {o' : Occ} {e' : MqEvents}
    (h : Delivers old pre o i e) (h' : Delivers old pre' o' i e') (hrun : MqRun old pre')
    (hp : pre ++ [o] <+: pre') : False := by
  obtain ⟨b, ok, hi, hplace⟩ := h.released
  obtain ⟨post, rfl⟩ := hp
  obtain ⟨b', hi', hplace'⟩ := released_append hrun hi hplace
  obtain ⟨q, now, ok', slot, r, a, sent, -, -, hia, htaken, -⟩ := h'
  rw [hi'] at hia
  cases hia
  exact absurd (hplace'.symm.trans htaken) (by simp)

theorem Delivers.once {pre' : List Occ} {o' : Occ} {e' : MqEvents} (hrun : MqRun old tr)
    (h : Delivers old pre o i e) (h' : Delivers old pre' o' i e') (hp : pre ++ [o] <+: tr)
    (hp' : pre' ++ [o'] <+: tr) : pre = pre' := by
  have hpre := (List.prefix_append pre [o]).trans hp
  have hpre' := (List.prefix_append pre' [o']).trans hp'
  rcases lt_trichotomy pre.length pre'.length with hlt | heq | hlt
  · have hle : (pre ++ [o]).length ≤ pre'.length := by
      rw [List.length_append]
      exact hlt
    exact (h.not_later h' (hrun.restrict hpre')
      (List.prefix_of_prefix_length_le hp hpre' hle)).elim
  · exact (List.prefix_of_prefix_length_le hpre hpre' heq.le).eq_of_length heq
  · have hle : (pre' ++ [o']).length ≤ pre.length := by
      rw [List.length_append]
      exact hlt
    exact (h'.not_later h (hrun.restrict hpre)
      (List.prefix_of_prefix_length_le hp' hpre hle)).elim

/-- However sends and receives interleave, and wherever they fail, every record joins the calls of
one block, and no block has two records. -/
theorem records_sound (c : MqCtrl) (old : List UInt64) (tr : List Occ) (h : MqRun old tr) :
    Sound c old tr := by
  constructor
  · intro pre o hp
    rcases emits_cases (c := c) (h.restrict hp) with hnil | ⟨i, e, hemits, hdelivers⟩
    · exact Or.inl hnil
    · exact Or.inr ⟨e, hemits, i, hdelivers, fun j hj => hdelivers.unique hj⟩
  · intro pre o pre' o' i e e' hp hp' _ _ hd hd'
    exact hd.once h hd' hp hp'

end Run

/-- A send fails after `load_msg` and the address of its block comes again, while a receive waits.
Of two receives that take blocks one fails; its block was there before the run. -/
def crossing : List Occ :=
  [.sendEnter 1 7 100 8 0 10 true, .loadEnter 1 100, .loadExit 1 4096 true,
    .rcvEnter 2 7 200 11 true, .sendExit 1 12, .sendEnter 3 7 300 8 1 13 true, .loadEnter 3 300,
    .loadExit 3 4096 true, .post 2, .rcvEnter 4 7 400 14 true, .take 4 2, .sendExit 3 15,
    .store 4 400 4096 1 8, .take 2 0, .rcvExit 4 16 true true, .rcvExit 2 17 false true]

theorem records_sound_crossing : Sound ⟨true, 0⟩ [8192] crossing ∧
    (tool ⟨true, 0⟩).emitted crossing = [⟨3, 4, 7, 8, 1, 13, 15, 14, 16⟩] := by
  have hold : ∀ addr ∈ [8192], IsBlock addr := List.forall_mem_singleton.mpr (by decide)
  have hrun : MqRun [8192] crossing := ⟨⟨List.nodup_singleton 8192, hold⟩, by decide, by decide⟩
  exact ⟨records_sound ⟨true, 0⟩ [8192] crossing hrun, by decide⟩

end CpuSubsystem.MqDelay
