import Mathlib.Algebra.Ring.Nat
import Mathlib.Data.Fintype.Card
import Mathlib.Logic.Function.Iterate
import Mathlib.Tactic.Common

/-!
# The hash map of the process image (`hashmap.c`)

An open addressed table with robin hood hashing.  A loop without a condition gets as many rounds as
there are buckets, and is `none` when they do not suffice.  Whether the allocations of a step
succeed is an input; the bytes behind the items, and what frees them, are left out.
-/

namespace CpuSubsystem

/-- `struct bucket`, with 48 bits of the hash, and the item behind it. -/
structure Bucket (α : Type*) where
  hash : Nat
  dib : UInt16
  item : α
deriving DecidableEq, Repr

/-- The item of a bucket that is in use. -/
def Bucket.present {α : Type*} (b : Bucket α) : Option α := if b.dib = 0 then none else some b.item

/-- The memory of a new table is zeroed. -/
instance {α : Type*} [Inhabited α] : Inhabited (Bucket α) := ⟨⟨0, 0, default⟩⟩

namespace Hashmap

/-- What `hashmap_new` is told about the items; `compare` can be missing. -/
structure Config (α : Type*) where
  seed0 : UInt64
  seed1 : UInt64
  hash : α → UInt64 → UInt64 → UInt64
  compare : Option (α → α → Int)

def clipHash (hash : UInt64) : Nat := (hash &&& 0xFFFFFFFFFFFF).toNat

/-- `get_hash`, before it is clipped. -/
def Config.hashOf {α : Type*} (cfg : Config α) (key : α) : UInt64 :=
  cfg.hash key cfg.seed0 cfg.seed1

/-- `!map->compare || map->compare(a, b) == 0`. -/
def Config.equal {α : Type*} (cfg : Config α) (a b : α) : Bool :=
  match cfg.compare with
  | none => true
  | some compare => compare a b == 0

section Loops

variable {α : Type*} {n : Nat} [NeZero n]

/-- `i & mask`. -/
def masked (n : Nat) [NeZero n] (i : Nat) : Fin n :=
  ⟨i &&& (n - 1), by
    have hpos := Nat.pos_of_ne_zero (NeZero.ne n)
    have hle : i &&& (n - 1) ≤ n - 1 := Nat.and_le_right
    omega⟩

/-- `(i + 1) & mask`. -/
def next (i : Fin n) : Fin n := masked n (i + 1)

/-- The loop of `resize0` for one entry: it goes to the first bucket that is free, and changes
places with every item on the way that is less far from home. -/
def place (t : Vector (Bucket α) n) (entry : Bucket α) :
    Nat → Fin n → Option (Vector (Bucket α) n)
  | 0, _ => none
  | fuel + 1, i =>
    let bucket := t.get i
    if bucket.dib = 0 then some (t.set i entry i.isLt)
    else if bucket.dib < entry.dib then
      place (t.set i entry i.isLt) { bucket with dib := bucket.dib + 1 } fuel (next i)
    else place t { entry with dib := entry.dib + 1 } fuel (next i)

/-- The loop of `resize0` over the entries, with `rounds` rounds for each item. -/
def moveAll (rounds : Nat) (entries : List (Bucket α)) (t : Vector (Bucket α) n) :
    Option (Vector (Bucket α) n) :=
  entries.foldlM (fun t entry =>
    if entry.dib = 0 then some t
    else place t { entry with dib := 1 } rounds (masked n entry.hash)) t

variable (cfg : Config α)

/-- The loop of `hashmap_set_with_hash`.  It gives the item that is replaced. -/
def insert (t : Vector (Bucket α) n) (entry : Bucket α) :
    Nat → Fin n → Option (Vector (Bucket α) n × Option α)
  | 0, _ => none
  | fuel + 1, i =>
    let bucket := t.get i
    if bucket.dib = 0 then some (t.set i entry i.isLt, none)
    else if entry.hash = bucket.hash ∧ cfg.equal entry.item bucket.item then
      some (t.set i { bucket with item := entry.item } i.isLt, some bucket.item)
    else if bucket.dib < entry.dib then
      insert (t.set i entry i.isLt) { bucket with dib := bucket.dib + 1 } fuel (next i)
    else insert t { entry with dib := entry.dib + 1 } fuel (next i)

/-- The loop of `hashmap_get_with_hash`, and the outer one of `hashmap_del_with_hash`. -/
def search (t : Vector (Bucket α) n) (key : α) (hash : Nat) : Nat → Fin n → Option (Option (Fin n))
  | 0, _ => none
  | fuel + 1, i =>
    let bucket := t.get i
    if bucket.dib = 0 then some none
    else if bucket.hash = hash ∧ cfg.equal key bucket.item then some (some i)
    else search t key hash fuel (next i)

/-- The inner loop of `hashmap_del_with_hash`: what follows is shifted back. -/
def shiftBack (t : Vector (Bucket α) n) : Nat → Fin n → Option (Vector (Bucket α) n)
  | 0, _ => none
  | fuel + 1, prev =>
    let bucket := t.get (next prev)
    if bucket.dib ≤ 1 then some (t.set prev { t.get prev with dib := 0 } prev.isLt)
    else shiftBack (t.set prev { bucket with dib := bucket.dib - 1 } prev.isLt) fuel (next prev)

/-- The items in use, in the order of the buckets. -/
def bucketItems (t : Vector (Bucket α) n) : List α := t.toList.filterMap Bucket.present

end Loops

/-- `nbuckets * (loadfactor / 100.0)`, with the load factor `GROW_AT`. -/
def growAt (nbuckets : Nat) : Nat := nbuckets * 60 / 100

/-- `nbuckets * SHRINK_AT`. -/
def shrinkAt (nbuckets : Nat) : Nat := nbuckets * 10 / 100

/-- `while (ncap < cap) ncap *= 2;`, in `cap` rounds at most. -/
def roundUp (cap : Nat) : Nat → Nat → Nat
  | 0, ncap => ncap
  | fuel + 1, ncap => if ncap < cap then roundUp cap fuel (ncap * 2) else ncap

theorem roundUp_pow (cap fuel : Nat) {ncap : Nat} (h : ∃ k, ncap = 2 ^ k) :
    ∃ k, roundUp cap fuel ncap = 2 ^ k := by
  induction fuel generalizing ncap with
  | zero => exact h
  | succ fuel ih =>
    unfold roundUp
    split
    · obtain ⟨k, rfl⟩ := h
      exact ih ⟨k + 1, (Nat.pow_succ 2 k).symm⟩
    · exact h

end Hashmap

/-- `struct hashmap`.  `mask` is `nbuckets - 1`; sizes are powers of two. -/
structure Hashmap (α : Type*) where
  cap : Nat
  cap_pow : ∃ k, cap = 2 ^ k
  nbuckets : Nat
  nbuckets_pow : ∃ k, nbuckets = 2 ^ k
  buckets : Vector (Bucket α) nbuckets
  count : Nat
  growat : Nat
  shrinkat : Nat
  growpower : Nat
  oom : Bool

namespace Hashmap

variable {α : Type*} [Inhabited α]

instance (m : Hashmap α) : NeZero m.nbuckets := ⟨by
  obtain ⟨k, hk⟩ := m.nbuckets_pow
  rw [hk]
  exact (Nat.two_pow_pos k).ne'⟩

/-- `hashmap_new`, when it gets its memory. -/
def new (α : Type*) [Inhabited α] (cap : Nat) : Hashmap α where
  cap := roundUp cap cap 16
  cap_pow := roundUp_pow cap cap ⟨4, rfl⟩
  nbuckets := roundUp cap cap 16
  nbuckets_pow := roundUp_pow cap cap ⟨4, rfl⟩
  buckets := Vector.replicate _ default
  count := 0
  growat := growAt (roundUp cap cap 16)
  shrinkat := shrinkAt (roundUp cap cap 16)
  growpower := 1
  oom := false

def setGrowByPower (m : Hashmap α) (power : Nat) : Hashmap α :=
  { m with growpower := if power < 1 then 1 else if power > 16 then 16 else power }

/-- `hashmap_clear`.  Without memory for the smaller table it keeps the old block, of which it uses
the first `cap` buckets. -/
def clear (m : Hashmap α) (updateCap : Bool) : Hashmap α :=
  let cap := if updateCap then m.nbuckets else m.cap
  have hcap : ∃ k, cap = 2 ^ k := by
    unfold cap
    split
    · exact m.nbuckets_pow
    · exact m.cap_pow
  { m with
    cap := cap
    cap_pow := hcap
    nbuckets := cap
    nbuckets_pow := hcap
    buckets := Vector.replicate _ default
    count := 0
    growat := growAt cap
    shrinkat := shrinkAt cap }

/-- `resize0`, when the allocations succeed. -/
def resize0 (m : Hashmap α) (newCap : Nat) : Option (Hashmap α) := do
  let map2 := new α newCap
  let buckets ← moveAll map2.nbuckets m.buckets.toList map2.buckets
  return { m with
    nbuckets := map2.nbuckets
    nbuckets_pow := map2.nbuckets_pow
    buckets := buckets
    growat := map2.growat
    shrinkat := map2.shrinkat }

/-- `resize`, and whether it succeeds. -/
def resize (m : Hashmap α) (newCap : Nat) (alloc : Bool) : Option (Hashmap α × Bool) :=
  if alloc then do return (← m.resize0 newCap, true) else some (m, false)

/-- The table grows before an item is set, if need be. -/
def makeRoom (m : Hashmap α) (alloc : Bool) : Option (Hashmap α × Bool) :=
  if m.count ≥ m.growat then m.resize (m.nbuckets * 2 ^ m.growpower) alloc else some (m, true)

variable (cfg : Config α)

def setWithHash (m : Hashmap α) (item : α) (hash : UInt64) (alloc : Bool) :
    Option (Hashmap α × Option α) := do
  let (m, ok) ← { m with oom := false }.makeRoom alloc
  if ok then
    let entry : Bucket α := ⟨clipHash hash, 1, item⟩
    let (buckets, old) ← insert cfg m.buckets entry m.nbuckets (masked m.nbuckets entry.hash)
    return ({ m with
      buckets := buckets
      count := if old.isSome then m.count else m.count + 1 }, old)
  else
    return ({ m with oom := true }, none)

/-- `hashmap_get_with_hash`; the pointer that it returns is a place in the table. -/
def getWithHash (m : Hashmap α) (key : α) (hash : UInt64) : Option (Option (Fin m.nbuckets)) :=
  search cfg m.buckets key (clipHash hash) m.nbuckets (masked m.nbuckets (clipHash hash))

/-- What `hashmap_del_with_hash` does with the bucket that it found. -/
def remove (m : Hashmap α) (i : Fin m.nbuckets) (alloc : Bool) : Option (Hashmap α) := do
  let bucket := m.buckets.get i
  let buckets ← shiftBack (m.buckets.set i { bucket with dib := 0 } i.isLt) m.nbuckets i
  let m := { m with buckets := buckets, count := m.count - 1 }
  if m.nbuckets > m.cap ∧ m.count ≤ m.shrinkat then
    -- a failure to shrink the table is ignored
    let (m, _) ← m.resize (m.nbuckets / 2) alloc
    return m
  else
    return m

def delWithHash (m : Hashmap α) (key : α) (hash : UInt64) (alloc : Bool) :
    Option (Hashmap α × Option α) :=
  let m := { m with oom := false }
  (m.getWithHash cfg key hash).bind fun
    | none => some (m, none)
    | some i => do return (← m.remove i alloc, some (m.buckets.get i).item)

def set (m : Hashmap α) (item : α) (alloc : Bool) : Option (Hashmap α × Option α) :=
  m.setWithHash cfg item (cfg.hashOf item) alloc

def get (m : Hashmap α) (key : α) : Option (Option (Fin m.nbuckets)) :=
  m.getWithHash cfg key (cfg.hashOf key)

def del (m : Hashmap α) (key : α) (alloc : Bool) : Option (Hashmap α × Option α) :=
  m.delWithHash cfg key (cfg.hashOf key) alloc

/-- A write through the pointer to an item. -/
def writeItem (m : Hashmap α) (i : Fin m.nbuckets) (item : α) : Hashmap α :=
  { m with buckets := m.buckets.set i { m.buckets.get i with item := item } i.isLt }

/-- `free_elements`: the items that are handed to `elfree`. -/
def freeElements (m : Hashmap α) : List α := bucketItems m.buckets

/-- The loop of `hashmap_scan`; `iter` answers whether to go on. -/
def scanFrom {σ : Type*} (iter : σ → α → σ × Bool) (udata : σ) : List (Bucket α) → σ × Bool
  | [] => (udata, true)
  | bucket :: rest =>
    if bucket.dib = 0 then scanFrom iter udata rest
    else
      match iter udata bucket.item with
      | (udata, true) => scanFrom iter udata rest
      | (udata, false) => (udata, false)

def scan {σ : Type*} (m : Hashmap α) (iter : σ → α → σ × Bool) (udata : σ) : σ × Bool :=
  scanFrom iter udata m.buckets.toList

/-- `hashmap_iter`: the item at the cursor or behind it, and the next cursor. -/
def iter (m : Hashmap α) (i : Nat) : Option (α × Nat) :=
  if h : i < m.nbuckets then
    let bucket := m.buckets.get ⟨i, h⟩
    if bucket.dib = 0 then m.iter (i + 1) else some (bucket.item, i + 1)
  else none
termination_by m.nbuckets - i

/-! ## `hashmap_sip` -/

def rotl (x b : UInt64) : UInt64 := x <<< b ||| x >>> (64 - b)

structure Sip where
  v0 : UInt64
  v1 : UInt64
  v2 : UInt64
  v3 : UInt64

/-- `SIPROUND`. -/
def Sip.round (s : Sip) : Sip :=
  let v0 := s.v0 + s.v1
  let v1 := rotl s.v1 13 ^^^ v0
  let v0 := rotl v0 32
  let v2 := s.v2 + s.v3
  let v3 := rotl s.v3 16 ^^^ v2
  let v0 := v0 + v3
  let v3 := rotl v3 21 ^^^ v0
  let v2 := v2 + v1
  let v1 := rotl v1 17 ^^^ v2
  ⟨v0, v1, rotl v2 32, v3⟩

/-- `U8TO64_LE`; bytes that are missing at the end are zero. -/
def u8to64 (p : List UInt8) : UInt64 := p.foldr (fun b x => b.toUInt64 ||| x <<< 8) 0

def Sip.absorb (s : Sip) (m : UInt64) : Sip :=
  let s := { s with v3 := s.v3 ^^^ m }.round.round
  { s with v0 := s.v0 ^^^ m }

/-- The loop over the blocks of eight bytes; it gives what is left. -/
def Sip.blocks : Sip → List UInt8 → Sip × List UInt8
  | s, b0 :: b1 :: b2 :: b3 :: b4 :: b5 :: b6 :: b7 :: rest =>
    (s.absorb (u8to64 [b0, b1, b2, b3, b4, b5, b6, b7])).blocks rest
  | s, left => (s, left)

/-- `SIP64`. -/
def sip (data : List UInt8) (seed0 seed1 : UInt64) : UInt64 :=
  let start : Sip := {
    v0 := 0x736f6d6570736575 ^^^ seed0
    v1 := 0x646f72616e646f6d ^^^ seed1
    v2 := 0x6c7967656e657261 ^^^ seed0
    v3 := 0x7465646279746573 ^^^ seed1 }
  let (s, left) := start.blocks data
  let s := s.absorb (UInt64.ofNat data.length <<< 56 ||| u8to64 left)
  let s := { s with v2 := s.v2 ^^^ 0xff }.round.round.round.round
  s.v0 ^^^ s.v1 ^^^ s.v2 ^^^ s.v3

-- the hash of the bytes 0 to 14 under the key of the bytes 0 to 15
example : sip ((List.range 15).map UInt8.ofNat) 0x0706050403020100 0x0f0e0d0c0b0a0908 =
    0xa129ca6149be45e5 := by
  decide +kernel

end Hashmap

end CpuSubsystem
