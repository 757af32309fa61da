import CpuSubsystem.CpuWatcher.MqDelay.Model
import Mathlib.Logic.Function.Basic

/-!
# Message queues

What threads do in `do_mq_timedsend` and `do_mq_timedreceive`, as far as the probes can tell: a send
makes a message block and posts it, or fails at any stage; a receive takes a posted block and stores
it, or fails at any stage.  Blocks are numbered by their creation, as an address can come again.  An
occurrence is a probe or one of the two steps that no probe sees.
-/

namespace CpuSubsystem.MqDelay

/-- What a call of `do_mq_timedsend` was entered with, and when. -/
structure SendCall where
  pid : Int
  mqdes : Int
  uMsgPtr : UInt64
  msgLen : UInt64
  msgPrio : UInt32
  enterTime : UInt64
deriving DecidableEq, Repr

/-- What a call of `do_mq_timedreceive` was entered with, and when. -/
structure RcvCall where
  pid : Int
  mqdes : Int
  uMsgPtr : UInt64
  enterTime : UInt64
deriving DecidableEq, Repr

/-- Where a block is: with its sender, in the queue, with the receive call of a thread, freed by its
sender, or freed by a receive call, which had given it to `store_msg` or not, and succeeded or
not. -/
inductive Place where
  | held
  | queued
  | taken (q : Int)
  | dropped
  | released (stored ok : Bool)
deriving DecidableEq, Repr

/-- A message block; `call` is that which created it, if it was not there before the run, and
`returned` the time at which that call returned. -/
structure Block where
  addr : UInt64
  call : Option SendCall
  place : Place
  returned : Option UInt64
deriving DecidableEq, Repr

/-- What a thread is doing; `i` is the number of a block. -/
inductive Phase where
  | idle
  | entered (c : SendCall)
  | loading (c : SendCall)
  | failed (c : SendCall) (err : UInt64)
  | loaded (c : SendCall) (i : Nat)
  | receiving (c : RcvCall)
  | took (c : RcvCall) (i : Nat)
  | stored (c : RcvCall) (i : Nat)
deriving DecidableEq, Repr

structure World where
  phase : Int → Phase
  blocks : List Block

inductive Occ where
  | sendEnter (p mqdes : Int) (uMsgPtr msgLen : UInt64) (msgPrio : UInt32) (now : UInt64)
      (room : Bool)
  | loadEnter (p : Int) (src : UInt64)
  | loadExit (p : Int) (ret : UInt64) (room : Bool)
  | post (i : Nat)
  | sendExit (p : Int) (now : UInt64)
  | rcvEnter (q mqdes : Int) (uMsgPtr now : UInt64) (room : Bool)
  | take (q : Int) (i : Nat)
  | store (q : Int) (dest msg : UInt64) (mType : UInt32) (mTs : UInt64)
  | rcvExit (q : Int) (now : UInt64) (ok slot : Bool)
deriving DecidableEq

def Occ.event : Occ → Option Event
  | .sendEnter p mqdes uMsgPtr msgLen msgPrio now room =>
    some (.mqTimedsend p mqdes uMsgPtr msgLen msgPrio now room)
  | .loadEnter p src => some (.loadMsgEnter p src)
  | .loadExit p ret room => some (.loadMsgExit p ret room)
  | .sendExit p now => some (.doMqTimedsendExit p now)
  | .rcvEnter q mqdes uMsgPtr now room => some (.mqTimedreceiveEntry q mqdes uMsgPtr now room)
  | .store q dest msg mType mTs => some (.storeMsg q dest msg mType mTs)
  | .rcvExit q now _ slot => some (.doMqTimedreceiveExit q now slot)
  | .post _ | .take _ _ => none

/-- Error numbers, as pointers. -/
def IsError (ptr : UInt64) : Prop := 2 ^ 64 - 4095 ≤ ptr.toNat

instance (ptr : UInt64) : Decidable (IsError ptr) := inferInstanceAs (Decidable (_ ≤ _))

/-- What `load_msg` returns when it succeeds. -/
def IsBlock (ptr : UInt64) : Prop := ptr ≠ 0 ∧ ¬IsError ptr

instance (ptr : UInt64) : Decidable (IsBlock ptr) := inferInstanceAs (Decidable (_ ∧ _))

def Place.live : Place → Bool
  | .held | .queued | .taken _ => true
  | .dropped | .released _ _ => false

/-- The block is not freed, or its sender has not returned. -/
def Block.busy (b : Block) : Bool := b.returned.isNone || b.place.live

/-- A receive call keeps its block until it returns, so that an address comes again only when all
calls that handled the block have returned. -/
def Reusable (w : World) (addr : UInt64) : Prop := ∀ b ∈ w.blocks, b.busy = true → b.addr ≠ addr

instance (w : World) (addr : UInt64) : Decidable (Reusable w addr) :=
  inferInstanceAs (Decidable (∀ b ∈ w.blocks, _))

/-- What can occur: calls do their steps in order, and may end after each of them, but that
`load_msg` returns; `ok` is that a receive call succeeds. -/
def Allowed (w : World) : Occ → Prop
  | .sendEnter p _ _ _ _ _ _ => w.phase p = .idle
  | .loadEnter p src =>
    match w.phase p with
    | .entered c => src = c.uMsgPtr
    | _ => False
  | .loadExit p ret _ =>
    match w.phase p with
    | .loading _ => IsError ret ∨ IsBlock ret ∧ Reusable w ret
    | _ => False
  | .post i => w.blocks[i]?.map Block.place = some .held
  | .sendExit p _ =>
    match w.phase p with
    | .entered _ | .failed _ _ | .loaded _ _ => True
    | _ => False
  | .rcvEnter q _ _ _ _ => w.phase q = .idle
  | .take q i =>
    match w.phase q with
    | .receiving _ => w.blocks[i]?.map Block.place = some .queued
    | _ => False
  | .store q dest msg _ _ =>
    match w.phase q with
    | .took c i => dest = c.uMsgPtr ∧ w.blocks[i]?.map Block.addr = some msg
    | _ => False
  | .rcvExit q _ ok _ =>
    match w.phase q with
    | .receiving _ | .took _ _ => ok = false
    | .stored _ _ => True
    | _ => False

instance (w : World) : DecidablePred (Allowed w) := by
  intro o
  cases o <;> simp only [Allowed] <;> (try split) <;> infer_instance

def World.become (w : World) (p : Int) (x : Phase) : World :=
  { w with phase := Function.update w.phase p x }

/-- The block `i` moves to another place. -/
def World.move (w : World) (i : Nat) (place : Place) : World :=
  { w with blocks := w.blocks.modify i fun b => { b with place } }

/-- The send that created the block returns; a block that was not posted is freed. -/
def Block.back (now : UInt64) (b : Block) : Block :=
  { b with returned := some now, place := if b.place = .held then .dropped else b.place }

def World.step (w : World) : Occ → World
  | .sendEnter p mqdes uMsgPtr msgLen msgPrio now _ =>
    w.become p (.entered ⟨p, mqdes, uMsgPtr, msgLen, msgPrio, now⟩)
  | .loadEnter p _ =>
    match w.phase p with
    | .entered c => w.become p (.loading c)
    | _ => w
  | .loadExit p ret _ =>
    match w.phase p with
    | .loading c =>
      if IsError ret then w.become p (.failed c ret)
      else
        { w.become p (.loaded c w.blocks.length) with
          blocks := w.blocks ++ [⟨ret, some c, .held, none⟩] }
    | _ => w
  | .post i => w.move i .queued
  | .sendExit p now =>
    match w.phase p with
    | .loaded _ i => { w.become p .idle with blocks := w.blocks.modify i (Block.back now) }
    | _ => w.become p .idle
  | .rcvEnter q mqdes uMsgPtr now _ => w.become q (.receiving ⟨q, mqdes, uMsgPtr, now⟩)
  | .take q i =>
    match w.phase q with
    | .receiving c => (w.become q (.took c i)).move i (.taken q)
    | _ => w
  | .store q _ _ _ _ =>
    match w.phase q with
    | .took c i => w.become q (.stored c i)
    | _ => w
  | .rcvExit q _ ok _ =>
    match w.phase q with
    | .took _ i => (w.become q .idle).move i (.released false ok)
    | .stored _ i => (w.become q .idle).move i (.released true ok)
    | _ => w.become q .idle

/-- No call is in progress; the blocks at the addresses `old` are in queues. -/
def World.initial (old : List UInt64) : World where
  phase _ := .idle
  blocks := old.map fun addr => ⟨addr, none, .queued, some 0⟩

def world (old : List UInt64) (tr : List Occ) : World := tr.foldl World.step (World.initial old)

theorem world_snoc (old : List UInt64) (pre : List Occ) (o : Occ) :
    world old (pre ++ [o]) = (world old pre).step o := by
  rw [world, List.foldl_append, List.foldl_cons, List.foldl_nil, world]

def Occ.served : Occ → Bool
  | .sendEnter _ _ _ _ _ _ room | .loadExit _ _ room | .rcvEnter _ _ _ _ room => room
  | .rcvExit _ _ _ slot => slot
  | _ => true

/-- Threads send and receive, and all updates and reservations succeed. -/
structure MqRun (old : List UInt64) (tr : List Occ) : Prop where
  blocks : old.Nodup ∧ ∀ addr ∈ old, IsBlock addr
  allowed : Throughout (fun pre o => Allowed (world old pre) o) tr
  served : ∀ o ∈ tr, o.served = true

theorem MqRun.of_snoc {old : List UInt64} {pre : List Occ} {o : Occ} (h : MqRun old (pre ++ [o])) :
    MqRun old pre :=
  ⟨h.blocks, h.allowed.of_snoc, fun x hx => h.served x (List.mem_append_left [o] hx)⟩

theorem MqRun.restrict {old : List UInt64} {pre tr : List Occ} (h : MqRun old tr)
    (hp : pre <+: tr) : MqRun old pre :=
  ⟨h.blocks, h.allowed.restrict hp, fun x hx => h.served x (hp.subset hx)⟩

section Moves

variable {w : World} {p q : Int} {x : Phase} {i : Nat} {place : Place}

@[simp] theorem become_phase_self : (w.become p x).phase p = x := by
  show Function.update w.phase p x p = x
  simp

theorem become_phase_other (h : q ≠ p) : (w.become p x).phase q = w.phase q := by
  show Function.update w.phase p x q = w.phase q
  simp [h]

@[simp] theorem become_blocks : (w.become p x).blocks = w.blocks := rfl

@[simp] theorem move_phase : (w.move i place).phase = w.phase := rfl

end Moves

section Inversion

variable {w : World} {p q : Int} {src ret dest msg now : UInt64} {mType : UInt32} {mTs : UInt64}
  {room ok slot : Bool}

theorem allowed_loadEnter (h : Allowed w (.loadEnter p src)) :
    ∃ c, w.phase p = .entered c ∧ src = c.uMsgPtr := by
  cases hx : w.phase p <;> simp_all [Allowed]

theorem allowed_loadExit (h : Allowed w (.loadExit p ret room)) :
    ∃ c, w.phase p = .loading c ∧ (IsError ret ∨ IsBlock ret ∧ Reusable w ret) := by
  cases hx : w.phase p <;> simp_all [Allowed]

theorem allowed_sendExit (h : Allowed w (.sendExit p now)) :
    (∃ c, w.phase p = .entered c) ∨ (∃ c err, w.phase p = .failed c err) ∨
      ∃ c i, w.phase p = .loaded c i := by
  cases hx : w.phase p <;> simp_all [Allowed]

theorem allowed_take {i : Nat} (h : Allowed w (.take q i)) :
    ∃ c b, w.phase q = .receiving c ∧ w.blocks[i]? = some b ∧ b.place = .queued := by
  cases hx : w.phase q <;> simp_all [Allowed]

theorem allowed_store (h : Allowed w (.store q dest msg mType mTs)) :
    ∃ c i b, w.phase q = .took c i ∧ dest = c.uMsgPtr ∧ w.blocks[i]? = some b ∧ b.addr = msg := by
  cases hx : w.phase q <;> simp_all [Allowed]

theorem allowed_rcvExit (h : Allowed w (.rcvExit q now ok slot)) :
    (∃ c, w.phase q = .receiving c) ∨ (∃ c i, w.phase q = .took c i) ∨
      ∃ c i, w.phase q = .stored c i := by
  cases hx : w.phase q <;> simp_all [Allowed]

end Inversion

end CpuSubsystem.MqDelay
