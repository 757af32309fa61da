import CpuSubsystem.CpuWatcher.MqDelay.World
import CpuSubsystem.Lib.Tenants

/-!
# How the maps follow the threads

The elements of a thread are those of its call while the call lasts, and whatever it left behind
between its calls.  Under the address of a block in use is what its sender wrote there, until a
receive that stored the block returns; an element that stayed under an address is replaced before
the address is used again.
-/

namespace CpuSubsystem.MqDelay

/-- The element of a call, when the block, the source and the return are known so far. -/
def SendCall.info (c : SendCall) (keyMsgPtr src sendExitTime : UInt64) : SendEvents :=
  { sendPid := c.pid, keyMsgPtr, mqdes := c.mqdes, msgLen := c.msgLen, msgPrio := c.msgPrio,
    uMsgPtr := c.uMsgPtr, src, sendEnterTime := c.enterTime, sendExitTime }

/-- The element of a call that has stored nothing. -/
def RcvCall.info (c : RcvCall) : RcvEvents :=
  { rcvPid := c.pid, keyMsgPtr := 0, mqdes := c.mqdes, msgLen := 0, msgPrio := 0,
    uMsgPtr := c.uMsgPtr, dest := 0, rcvEnterTime := c.enterTime, rcvExitTime := 0 }

def Place.consumed : Place → Bool
  | .released stored _ => stored
  | _ => false

/-- What belongs to the block in `send_msg2`. -/
def Block.entry (b : Block) : Option SendEvents :=
  if b.place.consumed then none
  else b.call.map fun c => c.info b.addr c.uMsgPtr (b.returned.getD 0)

/-- What a receive takes for the address of the block. -/
def Block.key (b : Block) : UInt64 := if b.call.isSome then b.addr else 0

def tenants : Tenants Block UInt64 SendEvents := ⟨Block.addr, Block.busy, Block.entry⟩

/-- What the maps hold for a thread. -/
def Followed (w : World) (s : State) (p : Int) : Phase → Prop
  | .idle => True
  | .entered c => c.pid = p ∧ s.sendMsg1.lookup p = some (c.info 0 0 0)
  | .loading c => c.pid = p ∧ s.sendMsg1.lookup p = some (c.info 0 c.uMsgPtr 0)
  | .failed c err =>
    s.sendMsg1.lookup p = some (c.info err c.uMsgPtr 0) ∧ IsError err ∧
      (s.sendMsg2.lookup err).isSome
  | .loaded c i =>
    c.pid = p ∧ ∃ b, w.blocks[i]? = some b ∧ b.call = some c ∧ b.returned = none ∧
      s.sendMsg1.lookup p = some (c.info b.addr c.uMsgPtr 0)
  | .receiving c => c.pid = p ∧ s.rcvMsg1.lookup p = some c.info
  | .took c i =>
    c.pid = p ∧ s.rcvMsg1.lookup p = some c.info ∧
      ∃ b, w.blocks[i]? = some b ∧ b.place = .taken p
  | .stored c i =>
    c.pid = p ∧ ∃ b r, w.blocks[i]? = some b ∧ b.place = .taken p ∧
      s.rcvMsg1.lookup p = some r ∧ r.keyMsgPtr = b.key ∧ r.rcvEnterTime = c.enterTime

structure Joined (w : World) (s : State) : Prop where
  threads : ∀ p, Followed w s p (w.phase p)
  blocks : ∀ b ∈ w.blocks, IsBlock b.addr
  housed : tenants.Housed s.sendMsg2 w.blocks
  zero : s.sendMsg2.lookup 0 = none

section Frame

/-- What a thread relies on when a block changes. -/
structure Block.Kept (p : Int) (b b' : Block) : Prop where
  addr : b'.addr = b.addr
  call : b'.call = b.call
  taken : b.place = .taken p → b'.place = .taken p
  returned : ∀ c, b.call = some c → c.pid = p → b.returned = none → b'.returned = none

theorem Block.Kept.refl (p : Int) (b : Block) : b.Kept p b :=
  ⟨rfl, rfl, fun h => h, fun _ _ _ h => h⟩

theorem Block.Kept.moved {p : Int} {b : Block} {place : Place} (h : b.place ≠ .taken p) :
    b.Kept p { b with place } :=
  ⟨rfl, rfl, fun ht => absurd ht h, fun _ _ _ hr => hr⟩

theorem Block.Kept.back {p : Int} {b : Block} {c : SendCall} {now : UInt64}
    (hcall : b.call = some c) (hp : c.pid ≠ p) : b.Kept p (b.back now) := by
  refine ⟨rfl, rfl, fun ht => ?_, fun c' hcall' hp' => ?_⟩
  · simp [Block.back, ht]
  · rw [hcall] at hcall'
    cases hcall'
    exact absurd hp' hp

/-- A thread relies on none of the changes. -/
structure Undisturbed (p : Int) (w w' : World) (s s' : State) : Prop where
  phase : w'.phase p = w.phase p
  sends : s'.sendMsg1.lookup p = s.sendMsg1.lookup p
  receives : s'.rcvMsg1.lookup p = s.rcvMsg1.lookup p
  errors : ∀ err, IsError err → (s.sendMsg2.lookup err).isSome = true →
    (s'.sendMsg2.lookup err).isSome = true
  blocks : ∀ (i : Nat) b, w.blocks[i]? = some b → ∃ b', w'.blocks[i]? = some b' ∧ b.Kept p b'

variable {w w' : World} {s s' : State} {p : Int}

theorem Followed.keep {x : Phase} (h : Followed w s p x) (hu : Undisturbed p w w' s s') :
    Followed w' s' p x := by
  cases x with
  | idle => trivial
  | entered c | loading c =>
    rw [Followed, hu.sends]
    exact h
  | failed c err =>
    rw [Followed, hu.sends]
    exact ⟨h.1, h.2.1, hu.errors err h.2.1 h.2.2⟩
  | loaded c i =>
    obtain ⟨hpid, b, hi, hcall, hret, hinfo⟩ := h
    obtain ⟨b', hi', hkept⟩ := hu.blocks i b hi
    rw [Followed, hu.sends]
    refine ⟨hpid, b', hi', hkept.call.trans hcall, hkept.returned c hcall hpid hret, ?_⟩
    rw [hkept.addr]
    exact hinfo
  | receiving c =>
    rw [Followed, hu.receives]
    exact h
  | took c i =>
    obtain ⟨hpid, hinfo, b, hi, hplace⟩ := h
    obtain ⟨b', hi', hkept⟩ := hu.blocks i b hi
    rw [Followed, hu.receives]
    exact ⟨hpid, hinfo, b', hi', hkept.taken hplace⟩
  | stored c i =>
    obtain ⟨hpid, b, r, hi, hplace, hinfo, hkey, htime⟩ := h
    obtain ⟨b', hi', hkept⟩ := hu.blocks i b hi
    have hkey' : b'.key = b.key := by rw [Block.key, Block.key, hkept.call, hkept.addr]
    rw [Followed, hu.receives]
    exact ⟨hpid, b', r, hi', hkept.taken hplace, hinfo, hkey.trans hkey'.symm, htime⟩

/-- One thread takes a step. -/
theorem Joined.threads_of (h : Joined w s) (hself : Followed w' s' p (w'.phase p))
    (hothers : ∀ q, q ≠ p → Undisturbed q w w' s s') (q : Int) : Followed w' s' q (w'.phase q) := by
  by_cases hq : q = p
  · rw [hq]
    exact hself
  · rw [(hothers q hq).phase]
    exact (h.threads q).keep (hothers q hq)

theorem keeps_same (hb : w'.blocks = w.blocks) (i : Nat) (b : Block)
    (hi : w.blocks[i]? = some b) : ∃ b', w'.blocks[i]? = some b' ∧ b.Kept p b' :=
  ⟨b, hb ▸ hi, Block.Kept.refl p b⟩

theorem keeps_append {a : Block} (hb : w'.blocks = w.blocks ++ [a]) (i : Nat) (b : Block)
    (hi : w.blocks[i]? = some b) : ∃ b', w'.blocks[i]? = some b' ∧ b.Kept p b' := by
  refine ⟨b, ?_, Block.Kept.refl p b⟩
  rw [hb, List.getElem?_append_left (List.getElem?_eq_some_iff.mp hi).1]
  exact hi

theorem keeps_modify {a : Block} {k : Nat} {f : Block → Block}
    (hb : w'.blocks = w.blocks.modify k f) (hk : w.blocks[k]? = some a) (hf : a.Kept p (f a))
    (i : Nat) (b : Block) (hi : w.blocks[i]? = some b) :
    ∃ b', w'.blocks[i]? = some b' ∧ b.Kept p b' := by
  rw [hb, List.getElem?_modify, hi]
  by_cases hik : k = i
  · rw [hik, hi] at hk
    cases hk
    exact ⟨f a, by simp [hik], hf⟩
  · exact ⟨b, by simp [hik], Block.Kept.refl p b⟩

end Frame

theorem busy_of_taken {b : Block} {q : Int} (h : b.place = .taken q) : b.busy = true := by
  simp [Block.busy, h, Place.live]

theorem busy_of_running {b : Block} (h : b.returned = none) : b.busy = true := by
  simp [Block.busy, h]

/-- What is under the address of a block in use. -/
theorem Joined.entry {w : World} {s : State} {i : Nat} {b : Block} (h : Joined w s)
    (hi : w.blocks[i]? = some b) (hbusy : b.busy = true) : s.sendMsg2.lookup b.addr = b.entry :=
  h.housed.lookup hi hbusy

section Handlers

variable {s : State} {p : Int} {key src ret dest msg now : UInt64} {mType : UInt32} {mTs : UInt64}
  {send1 send2 : SendEvents} {rcv : RcvEvents}

theorem loadMsgEnter_known (h : s.sendMsg1.lookup p = some send1) :
    loadMsgEnter s p src = { s with sendMsg1 := s.sendMsg1.store p { send1 with src } } := by
  rw [loadMsgEnter, h]

theorem loadMsgExit_known (h : s.sendMsg1.lookup p = some send1) (hsrc : send1.uMsgPtr = send1.src)
    (hpid : send1.sendPid = p) :
    loadMsgExit s p ret true =
      { s with
        sendMsg1 := s.sendMsg1.store p { send1 with keyMsgPtr := ret }
        sendMsg2 := s.sendMsg2.store ret { send1 with keyMsgPtr := ret } } := by
  rw [loadMsgExit, h]
  simp [hsrc, hpid]

theorem doMqTimedsendExit_known (h : s.sendMsg1.lookup p = some send1)
    (hk : s.sendMsg2.lookup send1.keyMsgPtr = some send2) :
    doMqTimedsendExit s p now =
      { s with
        sendMsg1 := s.sendMsg1.delete p
        sendMsg2 := s.sendMsg2.store send1.keyMsgPtr { send2 with sendExitTime := now } } := by
  rw [doMqTimedsendExit, h]
  simp [hk]

theorem doMqTimedsendExit_unknown (h : s.sendMsg1.lookup p = some send1)
    (hk : s.sendMsg2.lookup send1.keyMsgPtr = none) : doMqTimedsendExit s p now = s := by
  rw [doMqTimedsendExit, h]
  simp [hk]

theorem storeMsg_unknown (h : s.sendMsg2.lookup msg = none) :
    storeMsg s p dest msg mType mTs = s := by
  rw [storeMsg, h]

theorem storeMsg_known (h : s.sendMsg2.lookup msg = some send2)
    (hr : s.rcvMsg1.lookup p = some rcv) (hdest : dest = rcv.uMsgPtr) (hpid : rcv.rcvPid = p) :
    storeMsg s p dest msg mType mTs =
      { s with
        rcvMsg1 := s.rcvMsg1.store p
          { rcv with keyMsgPtr := msg, dest, msgPrio := mType, msgLen := mTs } } := by
  rw [storeMsg, h, hr]
  simp [hdest, hpid]

theorem doMqTimedreceiveExit_unknown {slot : Bool} (h : s.rcvMsg1.lookup p = some rcv)
    (hk : s.sendMsg2.lookup rcv.keyMsgPtr = none) :
    doMqTimedreceiveExit s p now slot = (s, []) := by
  rw [doMqTimedreceiveExit, h]
  simp [hk]

/-- The record of a receive that finds the element of the send. -/
def joined (send : SendEvents) (rcv : RcvEvents) (pid : Int) (rcvExitTime : UInt64) : MqEvents :=
  { sendPid := send.sendPid, rcvPid := pid, mqdes := send.mqdes, msgLen := send.msgLen,
    msgPrio := send.msgPrio, sendEnterTime := send.sendEnterTime,
    sendExitTime := send.sendExitTime, rcvEnterTime := rcv.rcvEnterTime, rcvExitTime }

theorem doMqTimedreceiveExit_known (h : s.rcvMsg1.lookup p = some rcv)
    (hk : s.sendMsg2.lookup rcv.keyMsgPtr = some send2) :
    doMqTimedreceiveExit s p now true =
      ({ s with
          sendMsg2 := s.sendMsg2.delete rcv.keyMsgPtr
          rcvMsg1 := s.rcvMsg1.delete p },
        [joined send2 rcv p now]) := by
  rw [doMqTimedreceiveExit, h]
  simp [hk, joined]

end Handlers

theorem IsBlock.ne_error {ptr err : UInt64} (h : IsBlock ptr) (herr : IsError err) : ptr ≠ err := by
  rintro rfl
  exact h.2 herr

/-- The programs, among the steps that they do not see. -/
def tool (c : MqCtrl) : Machine State Occ MqEvents := (machine c).watching Occ.event

namespace Joined

variable {c : MqCtrl} {w : World} {s : State} {p q : Int}

theorem initial {old : List UInt64} (hold : old.Nodup) (haddr : ∀ addr ∈ old, IsBlock addr) :
    Joined (World.initial old) (MqDelay.initial c) := by
  have hmem : ∀ b ∈ (World.initial old).blocks, b.addr ∈ old ∧ b.call = none := by
    intro b hb
    obtain ⟨addr, haddr, rfl⟩ := List.mem_map.mp hb
    exact ⟨haddr, rfl⟩
  constructor
  · intro p
    trivial
  · intro b hb
    exact haddr b.addr (hmem b hb).1
  · constructor
    · intro b hb _
      show none = Block.entry b
      simp [Block.entry, (hmem b hb).2]
    · intro i j b b' hi hj _ _ heq
      -- the addresses of the blocks are the list itself
      have hget : ∀ (k : Nat) b, (World.initial old).blocks[k]? = some b →
          old[k]? = some b.addr := by
        intro k b hk
        rw [World.initial, List.getElem?_map, Option.map_eq_some_iff] at hk
        obtain ⟨addr, hk, rfl⟩ := hk
        exact hk
      have hlt := (List.getElem?_eq_some_iff.mp (hget i b hi)).1
      apply (List.getElem?_inj hlt hold).mp
      rw [hget i b hi, hget j b' hj]
      exact congrArg some heq
  · rfl

/-- A thread goes on, and under the addresses of blocks nothing changes. -/
theorem becomes {x : Phase} {s' : State} (h : Joined w s) (hself : Followed (w.become p x) s' p x)
    (hsends : ∀ q, q ≠ p → s'.sendMsg1.lookup q = s.sendMsg1.lookup q)
    (hreceives : ∀ q, q ≠ p → s'.rcvMsg1.lookup q = s.rcvMsg1.lookup q)
    (helse : ∀ k, ¬IsError k → s'.sendMsg2.lookup k = s.sendMsg2.lookup k)
    (herrors : ∀ err, (s.sendMsg2.lookup err).isSome = true →
      (s'.sendMsg2.lookup err).isSome = true) : Joined (w.become p x) s' := by
  refine ⟨?_, h.blocks, ?_, ?_⟩
  · apply h.threads_of (p := p)
    · rw [become_phase_self]
      exact hself
    · intro q hq
      exact ⟨become_phase_other hq, hsends q hq, hreceives q hq, fun err _ => herrors err,
        keeps_same rfl⟩
  · apply h.housed.congr
    intro b hb _
    exact helse b.addr (h.blocks b hb).2
  · rw [helse 0 (by decide)]
    exact h.zero

/-- A thread goes on, and the maps stay as they are. -/
theorem becomes_same {x : Phase} (h : Joined w s) (hself : Followed (w.become p x) s p x) :
    Joined (w.become p x) s :=
  h.becomes hself (fun _ _ => rfl) (fun _ _ => rfl) (fun _ _ => rfl) fun _ hs => hs

theorem sendEnter {mqdes : Int} {uMsgPtr msgLen now : UInt64} {msgPrio : UInt32}
    (h : Joined w s) :
    Joined (w.step (.sendEnter p mqdes uMsgPtr msgLen msgPrio now true))
      ((tool c).step s (.sendEnter p mqdes uMsgPtr msgLen msgPrio now true)).1 := by
  show Joined (w.become p _) (mqTimedsend s p mqdes uMsgPtr msgLen msgPrio now true)
  simp only [mqTimedsend, BpfMap.update_true]
  apply h.becomes
  · exact ⟨rfl, BpfMap.lookup_store_self _ _ _⟩
  · intro q hq
    exact BpfMap.lookup_store_of_ne _ _ hq
  · exact fun _ _ => rfl
  · exact fun _ _ => rfl
  · exact fun _ hs => hs

theorem loadEnter {src : UInt64} (h : Joined w s) (ha : Allowed w (.loadEnter p src)) :
    Joined (w.step (.loadEnter p src)) ((tool c).step s (.loadEnter p src)).1 := by
  obtain ⟨call, hx, rfl⟩ := allowed_loadEnter ha
  obtain ⟨hpid, hinfo⟩ : Followed w s p (.entered call) := hx ▸ h.threads p
  have hw : w.step (.loadEnter p call.uMsgPtr) = w.become p (.loading call) := by
    simp only [World.step, hx]
  rw [hw]
  show Joined _ (loadMsgEnter s p call.uMsgPtr)
  rw [loadMsgEnter_known hinfo]
  apply h.becomes
  · exact ⟨hpid, BpfMap.lookup_store_self _ _ _⟩
  · intro q hq
    exact BpfMap.lookup_store_of_ne _ _ hq
  · exact fun _ _ => rfl
  · exact fun _ _ => rfl
  · exact fun _ hs => hs

theorem loadExit {ret : UInt64} (h : Joined w s) (ha : Allowed w (.loadExit p ret true)) :
    Joined (w.step (.loadExit p ret true)) ((tool c).step s (.loadExit p ret true)).1 := by
  obtain ⟨call, hx, hret⟩ := allowed_loadExit ha
  obtain ⟨hpid, hinfo⟩ : Followed w s p (.loading call) := hx ▸ h.threads p
  have hstep : ((tool c).step s (.loadExit p ret true)).1 =
      { s with
        sendMsg1 := s.sendMsg1.store p (call.info ret call.uMsgPtr 0)
        sendMsg2 := s.sendMsg2.store ret (call.info ret call.uMsgPtr 0) } :=
    loadMsgExit_known hinfo rfl hpid
  rw [hstep]
  by_cases herr : IsError ret
  · have hw : w.step (.loadExit p ret true) = w.become p (.failed call ret) := by
      simp only [World.step, hx, if_pos herr]
    rw [hw]
    apply h.becomes
    · exact ⟨BpfMap.lookup_store_self _ _ _, herr, by simp⟩
    · intro q hq
      exact BpfMap.lookup_store_of_ne _ _ hq
    · exact fun _ _ => rfl
    · rintro k hk
      exact BpfMap.lookup_store_of_ne _ _ fun heq => hk (heq ▸ herr)
    · exact fun _ hs => BpfMap.isSome_lookup_store hs _ _
  · obtain ⟨hblock, hfresh⟩ := hret.resolve_left herr
    let a : Block := ⟨ret, some call, .held, none⟩
    have hw : w.step (.loadExit p ret true) =
        { w.become p (.loaded call w.blocks.length) with blocks := w.blocks ++ [a] } := by
      simp only [World.step, hx, if_neg herr, a]
    rw [hw]
    refine ⟨?_, ?_, ?_, ?_⟩
    · apply h.threads_of (p := p)
      · show Followed _ _ p ((w.become p (.loaded call w.blocks.length)).phase p)
        rw [become_phase_self]
        exact ⟨hpid, a, List.getElem?_concat_length, rfl, rfl, BpfMap.lookup_store_self _ _ _⟩
      · intro q hq
        exact ⟨become_phase_other hq, BpfMap.lookup_store_of_ne _ _ hq, rfl,
          fun _ _ hs => BpfMap.isSome_lookup_store hs _ _, keeps_append rfl⟩
    · intro b hb
      rcases List.mem_append.mp hb with hb | hb
      · exact h.blocks b hb
      · rw [List.mem_singleton.mp hb]
        exact hblock
    · apply h.housed.append (a := a)
      · exact hfresh
      · intro k hk
        exact BpfMap.lookup_store_of_ne _ _ hk
      · exact BpfMap.lookup_store_self _ _ _
    · show (s.sendMsg2.store ret _).lookup 0 = none
      rw [BpfMap.lookup_store_of_ne _ _ (Ne.symm hblock.1)]
      exact h.zero

/-- A block in use changes, and what is under its address with it. -/
theorem changed {w' : World} {s' : State} {i : Nat} {b : Block} {f : Block → Block}
    (h : Joined w s) (hi : w.blocks[i]? = some b) (hbusy : b.busy = true)
    (hw : w'.blocks = w.blocks.modify i f) (haddr : (f b).addr = b.addr)
    (helse : ∀ k, k ≠ b.addr → s'.sendMsg2.lookup k = s.sendMsg2.lookup k)
    (hself : (f b).busy = true → s'.sendMsg2.lookup b.addr = (f b).entry)
    (hthreads : ∀ q, Followed w' s' q (w'.phase q)) : Joined w' s' := by
  have hblock := h.blocks b (List.mem_of_getElem? hi)
  refine ⟨hthreads, ?_, ?_, ?_⟩
  · rw [hw]
    intro a ha
    obtain ⟨j, hj⟩ := List.mem_iff_getElem?.mp ha
    rw [List.getElem?_modify, Option.map_eq_map, Option.map_eq_some_iff] at hj
    obtain ⟨a, hj, rfl⟩ := hj
    split
    next hij =>
      rw [← hij, hi] at hj
      cases hj
      rw [haddr]
      exact hblock
    next => exact h.blocks a (List.mem_of_getElem? hj)
  · rw [hw]
    exact h.housed.modify hi hbusy haddr helse hself
  · rw [helse 0 (Ne.symm hblock.1)]
    exact h.zero

/-- A block goes to its queue or to a receive, and the maps stay as they are. -/
theorem moved {w' : World} {i : Nat} {b : Block} {place : Place} (h : Joined w s)
    (hi : w.blocks[i]? = some b) (hbusy : b.busy = true)
    (hw : w'.blocks = w.blocks.modify i fun b => { b with place })
    (hthere : place.consumed = b.place.consumed) (hthreads : ∀ q, Followed w' s q (w'.phase q)) :
    Joined w' s := by
  apply h.changed (f := fun b => { b with place }) hi hbusy hw rfl (fun _ _ => rfl) _ hthreads
  intro _
  rw [h.entry hi hbusy, Block.entry, Block.entry, hthere]

theorem post {i : Nat} (h : Joined w s) (ha : Allowed w (.post i)) :
    Joined (w.step (.post i)) ((tool c).step s (.post i)).1 := by
  obtain ⟨b, hi, hplace⟩ := Option.map_eq_some_iff.mp ha
  have hbusy : b.busy = true := by simp [Block.busy, hplace, Place.live]
  show Joined (w.move i .queued) s
  apply h.moved hi hbusy rfl
  · rw [hplace]
    rfl
  · intro q
    have hfree : b.place ≠ .taken q := by simp [hplace]
    exact (h.threads q).keep ⟨rfl, rfl, rfl, fun _ _ h => h, keeps_modify rfl hi (.moved hfree)⟩

/-- A send returns that has made a block. -/
theorem sendExit_loaded {now : UInt64} {call : SendCall} {i : Nat} (h : Joined w s)
    (hx : w.phase p = .loaded call i) :
    Joined (w.step (.sendExit p now)) (doMqTimedsendExit s p now) := by
  obtain ⟨hpid, b, hi, hcall, hret, hinfo⟩ : Followed w s p (.loaded call i) := hx ▸ h.threads p
  have hbusy := busy_of_running hret
  have hw : w.step (.sendExit p now) =
      { w.become p .idle with blocks := w.blocks.modify i (Block.back now) } := by
    simp only [World.step, hx]
  have hidle : ∀ s', Followed (w.step (.sendExit p now)) s' p
      ((w.step (.sendExit p now)).phase p) := by
    intro s'
    rw [hw]
    show Followed _ s' p ((w.become p .idle).phase p)
    rw [become_phase_self]
    trivial
  have hkept : ∀ q, q ≠ p → b.Kept q (b.back now) :=
    fun q hq => .back hcall fun heq => hq (heq.symm.trans hpid)
  rw [hw] at hidle ⊢
  by_cases hgone : b.place.consumed = true
  · have hnone : s.sendMsg2.lookup b.addr = none := by
      rw [h.entry hi hbusy, Block.entry, if_pos hgone]
    rw [doMqTimedsendExit_unknown hinfo hnone]
    apply h.changed hi hbusy rfl rfl
    · exact fun _ _ => rfl
    · -- the block is out of use now
      intro hb
      cases hplace : b.place <;>
        simp_all [Block.busy, Block.back, Place.live, Place.consumed]
    · apply h.threads_of (hidle s)
      intro q hq
      exact ⟨become_phase_other hq, rfl, rfl, fun _ _ h => h, keeps_modify rfl hi (hkept q hq)⟩
  · have hentry : s.sendMsg2.lookup b.addr = some (call.info b.addr call.uMsgPtr 0) := by
      rw [h.entry hi hbusy, Block.entry, if_neg hgone, hcall, hret]
      rfl
    rw [doMqTimedsendExit_known hinfo hentry]
    apply h.changed hi hbusy rfl rfl
    · intro k hk
      exact BpfMap.lookup_store_of_ne _ _ hk
    · intro _
      show (s.sendMsg2.store b.addr _).lookup b.addr = _
      have hthere : (b.back now).place.consumed = false := by
        cases hplace : b.place <;> simp_all [Block.back, Place.consumed]
      rw [BpfMap.lookup_store_self, Block.entry, hthere]
      simp [Block.back, hcall, SendCall.info]
    · apply h.threads_of (hidle _)
      intro q hq
      exact ⟨become_phase_other hq, BpfMap.lookup_delete_of_ne _ hq, rfl,
        fun _ _ hs => BpfMap.isSome_lookup_store hs _ _, keeps_modify rfl hi (hkept q hq)⟩

theorem sendExit {now : UInt64} (h : Joined w s) (ha : Allowed w (.sendExit p now)) :
    Joined (w.step (.sendExit p now)) ((tool c).step s (.sendExit p now)).1 := by
  show Joined _ (doMqTimedsendExit s p now)
  rcases allowed_sendExit ha with ⟨call, hx⟩ | ⟨call, err, hx⟩ | ⟨call, i, hx⟩
  · -- the call failed before it had a block, and nothing is under its key
    obtain ⟨-, hinfo⟩ : Followed w s p (.entered call) := hx ▸ h.threads p
    have hw : w.step (.sendExit p now) = w.become p .idle := by simp only [World.step, hx]
    rw [hw, doMqTimedsendExit_unknown hinfo h.zero]
    exact h.becomes_same trivial
  · -- the element under the error number is written to, and stays
    obtain ⟨hinfo, herr, hsome⟩ : Followed w s p (.failed call err) := hx ▸ h.threads p
    obtain ⟨send2, hsend2⟩ := Option.isSome_iff_exists.mp hsome
    have hw : w.step (.sendExit p now) = w.become p .idle := by simp only [World.step, hx]
    rw [hw, doMqTimedsendExit_known hinfo hsend2]
    apply h.becomes
    · trivial
    · intro q hq
      exact BpfMap.lookup_delete_of_ne _ hq
    · exact fun _ _ => rfl
    · intro k hk
      exact BpfMap.lookup_store_of_ne _ _ fun heq => hk (heq ▸ herr)
    · exact fun _ hs => BpfMap.isSome_lookup_store hs _ _
  · exact h.sendExit_loaded hx

theorem rcvEnter {mqdes : Int} {uMsgPtr now : UInt64} (h : Joined w s) :
    Joined (w.step (.rcvEnter q mqdes uMsgPtr now true))
      ((tool c).step s (.rcvEnter q mqdes uMsgPtr now true)).1 := by
  show Joined (w.become q _) (mqTimedreceiveEntry s q mqdes uMsgPtr now true)
  simp only [mqTimedreceiveEntry, BpfMap.update_true]
  apply h.becomes
  · exact ⟨rfl, BpfMap.lookup_store_self _ _ _⟩
  · exact fun _ _ => rfl
  · intro p hp
    exact BpfMap.lookup_store_of_ne _ _ hp
  · exact fun _ _ => rfl
  · exact fun _ hs => hs

theorem take {i : Nat} (h : Joined w s) (ha : Allowed w (.take q i)) :
    Joined (w.step (.take q i)) ((tool c).step s (.take q i)).1 := by
  obtain ⟨call, b, hx, hi, hplace⟩ := allowed_take ha
  obtain ⟨hpid, hinfo⟩ : Followed w s q (.receiving call) := hx ▸ h.threads q
  have hbusy : b.busy = true := by simp [Block.busy, hplace, Place.live]
  have hw : w.step (.take q i) = (w.become q (.took call i)).move i (.taken q) := by
    simp only [World.step, hx]
  rw [hw]
  show Joined _ s
  apply h.moved hi hbusy rfl
  · rw [hplace]
    rfl
  · apply h.threads_of (p := q)
    · rw [move_phase, become_phase_self]
      refine ⟨hpid, hinfo, { b with place := .taken q }, ?_, rfl⟩
      show (w.blocks.modify i _)[i]? = _
      rw [List.getElem?_modify, hi]
      simp
    · intro p hp
      have hfree : b.place ≠ .taken p := by simp [hplace]
      exact ⟨become_phase_other hp, rfl, rfl, fun _ _ h => h, keeps_modify rfl hi (.moved hfree)⟩

theorem store {dest msg : UInt64} {mType : UInt32} {mTs : UInt64} (h : Joined w s)
    (ha : Allowed w (.store q dest msg mType mTs)) :
    Joined (w.step (.store q dest msg mType mTs))
      ((tool c).step s (.store q dest msg mType mTs)).1 := by
  obtain ⟨call, i, b, hx, rfl, hi, rfl⟩ := allowed_store ha
  obtain ⟨hpid, hinfo, b', hi', hplace⟩ : Followed w s q (.took call i) := hx ▸ h.threads q
  obtain rfl : b = b' := Option.some.inj (hi.symm.trans hi')
  have hlookup := h.entry hi (busy_of_taken hplace)
  have hw : w.step (.store q call.uMsgPtr b.addr mType mTs) = w.become q (.stored call i) := by
    simp only [World.step, hx]
  rw [hw]
  show Joined _ (storeMsg s q call.uMsgPtr b.addr mType mTs)
  cases hcall : b.call with
  | none =>
    have hnone : s.sendMsg2.lookup b.addr = none := by
      rw [hlookup]
      simp [Block.entry, hcall]
    have hzero : call.info.keyMsgPtr = b.key := by simp [Block.key, hcall, RcvCall.info]
    rw [storeMsg_unknown hnone]
    exact h.becomes_same ⟨hpid, b, call.info, hi, hplace, hinfo, hzero, rfl⟩
  | some sent =>
    have hsome : ∃ send, s.sendMsg2.lookup b.addr = some send := by
      rw [hlookup]
      simp [Block.entry, hcall, hplace, Place.consumed]
    obtain ⟨send, hsend⟩ := hsome
    have hkey : b.addr = b.key := by simp [Block.key, hcall]
    have hstep : storeMsg s q call.uMsgPtr b.addr mType mTs = _ :=
      storeMsg_known hsend hinfo rfl hpid
    rw [hstep]
    apply h.becomes
    · exact ⟨hpid, b, _, hi, hplace, BpfMap.lookup_store_self _ _ _, hkey, rfl⟩
    · exact fun _ _ => rfl
    · intro p hp
      exact BpfMap.lookup_store_of_ne _ _ hp
    · exact fun _ _ => rfl
    · exact fun _ hs => hs

/-- A receive that took a block returns. -/
theorem released {i : Nat} {b : Block} {stored ok : Bool} {s' : State} (h : Joined w s)
    (hi : w.blocks[i]? = some b) (hplace : b.place = .taken q)
    (hsends : s'.sendMsg1 = s.sendMsg1)
    (hreceives : ∀ p, p ≠ q → s'.rcvMsg1.lookup p = s.rcvMsg1.lookup p)
    (helse : ∀ k, k ≠ b.addr → s'.sendMsg2.lookup k = s.sendMsg2.lookup k)
    (hself : s'.sendMsg2.lookup b.addr = Block.entry { b with place := .released stored ok }) :
    Joined ((w.become q .idle).move i (.released stored ok)) s' := by
  apply h.changed (f := fun b => { b with place := .released stored ok }) hi
    (busy_of_taken hplace) rfl rfl helse
  · intro _
    exact hself
  · apply h.threads_of (p := q)
    · rw [move_phase, become_phase_self]
      trivial
    · intro p hp
      have hother : b.place ≠ .taken p := by simpa [hplace] using Ne.symm hp
      refine ⟨become_phase_other hp, by rw [hsends], hreceives p hp, ?_,
        keeps_modify rfl hi (.moved hother)⟩
      intro err herr hsome
      rw [helse err (Ne.symm ((h.blocks b (List.mem_of_getElem? hi)).ne_error herr))]
      exact hsome

/-- A receive returns that has stored its block. -/
theorem rcvExit_stored {now : UInt64} {ok : Bool} {call : RcvCall} {i : Nat} (h : Joined w s)
    (hx : w.phase q = .stored call i) :
    Joined (w.step (.rcvExit q now ok true)) (doMqTimedreceiveExit s q now true).1 := by
  obtain ⟨-, b, r, hi, hplace, hinfo, hkey, -⟩ : Followed w s q (.stored call i) :=
    hx ▸ h.threads q
  have hw : w.step (.rcvExit q now ok true) = (w.become q .idle).move i (.released true ok) := by
    simp only [World.step, hx]
  have hlookup := h.entry hi (busy_of_taken hplace)
  have hentry : Block.entry { b with place := .released true ok } = none := rfl
  rw [hw]
  cases hcall : b.call with
  | none =>
    have hzero : r.keyMsgPtr = 0 := by simp [hkey, Block.key, hcall]
    have hnone : s.sendMsg2.lookup r.keyMsgPtr = none := by rw [hzero, h.zero]
    rw [doMqTimedreceiveExit_unknown hinfo hnone]
    apply h.released hi hplace rfl (fun _ _ => rfl) (fun _ _ => rfl)
    rw [hlookup, hentry]
    simp [Block.entry, hcall]
  | some sent =>
    have haddr : r.keyMsgPtr = b.addr := by simp [hkey, Block.key, hcall]
    have hsome : ∃ send, s.sendMsg2.lookup r.keyMsgPtr = some send := by
      rw [haddr, hlookup]
      simp [Block.entry, hcall, hplace, Place.consumed]
    obtain ⟨send, hsend⟩ := hsome
    rw [doMqTimedreceiveExit_known hinfo hsend, haddr]
    apply h.released hi hplace
    · rfl
    · intro p hp
      exact BpfMap.lookup_delete_of_ne _ hp
    · intro k hk
      exact BpfMap.lookup_delete_of_ne _ hk
    · rw [hentry]
      exact BpfMap.lookup_delete_self _ _

theorem rcvExit {now : UInt64} {ok : Bool} (h : Joined w s)
    (ha : Allowed w (.rcvExit q now ok true)) :
    Joined (w.step (.rcvExit q now ok true)) ((tool c).step s (.rcvExit q now ok true)).1 := by
  show Joined _ (doMqTimedreceiveExit s q now true).1
  rcases allowed_rcvExit ha with ⟨call, hx⟩ | ⟨call, i, hx⟩ | ⟨call, i, hx⟩
  · obtain ⟨-, hinfo⟩ : Followed w s q (.receiving call) := hx ▸ h.threads q
    have hw : w.step (.rcvExit q now ok true) = w.become q .idle := by simp only [World.step, hx]
    rw [hw, doMqTimedreceiveExit_unknown hinfo h.zero]
    exact h.becomes_same trivial
  · obtain ⟨-, hinfo, b, hi, hplace⟩ : Followed w s q (.took call i) := hx ▸ h.threads q
    have hw : w.step (.rcvExit q now ok true) =
        (w.become q .idle).move i (.released false ok) := by
      simp only [World.step, hx]
    rw [hw, doMqTimedreceiveExit_unknown hinfo h.zero]
    apply h.released hi hplace rfl (fun _ _ => rfl) (fun _ _ => rfl)
    rw [h.entry hi (busy_of_taken hplace)]
    simp [Block.entry, hplace, Place.consumed]
  · exact h.rcvExit_stored hx

/-- Every step keeps the maps in line with the threads. -/
theorem step {o : Occ} (h : Joined w s) (ha : Allowed w o) (hserved : o.served = true) :
    Joined (w.step o) ((tool c).step s o).1 := by
  cases o with
  | sendEnter p mqdes uMsgPtr msgLen msgPrio now room =>
    cases hserved
    exact h.sendEnter
  | loadEnter p src => exact h.loadEnter ha
  | loadExit p ret room =>
    cases hserved
    exact h.loadExit ha
  | post i => exact h.post ha
  | sendExit p now => exact h.sendExit ha
  | rcvEnter q mqdes uMsgPtr now room =>
    cases hserved
    exact h.rcvEnter
  | take q i => exact h.take ha
  | store q dest msg mType mTs => exact h.store ha
  | rcvExit q now ok slot =>
    cases hserved
    exact h.rcvExit ha

end Joined

theorem joined_run (c : MqCtrl) {old : List UInt64} {tr : List Occ} (h : MqRun old tr) :
    Joined (world old tr) ((tool c).exec tr) := by
  induction tr using List.reverseRecOn with
  | nil => exact Joined.initial h.blocks.1 h.blocks.2
  | append_singleton pre o ih =>
    rw [world_snoc, (tool c).exec_snoc]
    exact (ih h.of_snoc).step h.allowed.last (h.served o (by simp))

end CpuSubsystem.MqDelay
