import CpuSubsystem.Lib.Holdings
import CpuSubsystem.Lib.Outcome
import CpuSubsystem.ProcImage.Controller
import Mathlib.Data.List.TakeWhile
import Mathlib.Logic.Function.Basic

/-!
# Loading and unloading the images (`main` in `proc_image.c`)

`main` loads every enabled image and pins its control map, one after the other, polls until it is
told to stop, and unloads all of them behind one label.  What the kernel, `libbpf` and the calls in
the loop return is given by `Answers` and `Round`; what is acquired and released is kept in a log.
-/

namespace CpuSubsystem.ProcImage

open ProcController (Image)

inductive Opt where
  | all | resource | syscall | lock | keytime | schedule
deriving DecidableEq, Repr

structure Env where
  enableResource : Bool
  enableSyscall : Bool
  enableLock : Bool
  enableKeytime : Bool
  enableSchedule : Bool
deriving DecidableEq, Repr

def Env.initial : Env := ⟨false, false, false, false, false⟩

def parseArg (env : Env) : Opt → Env
  | .all => ⟨true, true, true, true, true⟩
  | .resource => { env with enableResource := true }
  | .syscall => { env with enableSyscall := true }
  | .lock => { env with enableLock := true }
  | .keytime => { env with enableKeytime := true }
  | .schedule => { env with enableSchedule := true }

def Env.parse (opts : List Opt) : Env := opts.foldl parseArg Env.initial

def Env.enabled (env : Env) : Image → Bool
  | .resource => env.enableResource
  | .syscall => env.enableSyscall
  | .lock => env.enableLock
  | .keytime => env.enableKeytime
  | .schedule => env.enableSchedule

/-- What is returned to the block that loads an image: pointers are `true` when they are not
`NULL`. -/
structure Answers where
  opened : Bool
  load : Int
  ksyms : Bool
  foundMap : Bool
  pin : Int
  update : Int
  attach : Int
  ringBuffer : Bool
deriving DecidableEq, Repr

/-- What an iteration of the loop reads of `env`, and what its calls return. -/
structure Round where
  exitThread : Bool
  createThread : Bool
  outputResourse : Bool
  outputSchedule : Bool
  join : Int
  create : Int
  printResource : Int
  pollSyscall : Int
  pollLock : Int
  pollKeytime : Int
  printSchedule : Int
deriving DecidableEq, Repr

/-- What has to be given back; the control map of an image is pinned to a path. -/
inductive Resource where
  | skeleton (i : Image)
  | ctrlMap (i : Image)
  | ringBuffer (i : Image)
  | ksyms
deriving DecidableEq, Repr

/-- Which of the pointers are not `NULL`. -/
structure Proc where
  pointer : Resource → Bool
  log : List (Hold Resource)

def Proc.initial : Proc := ⟨fun _ => false, []⟩

def Proc.acquire (p : Proc) (r : Resource) : Proc :=
  ⟨Function.update p.pointer r true, p.log ++ [.acquired r]⟩

/-- How the blocks and the loop are left: only the label cleans up. -/
inductive Exit where
  | returned (code : Int)
  | cleanup (err : Int)
  | exited
deriving DecidableEq, Repr

/-- `EINTR`. -/
abbrev eintr : Int := 4

/-- `EXIT_FAILURE`. -/
abbrev exitFailure : Int := 1

def commonPinMap (p : Proc) (i : Image) (a : Answers) : Proc × Int :=
  if a.foundMap then
    -- a map that a run before this one left pinned is unpinned first
    let p : Proc := ⟨Function.update p.pointer (.ctrlMap i) true, p.log ++ [.released (.ctrlMap i)]⟩
    if a.pin ≠ 0 then (p, -1) else (p.acquire (.ctrlMap i), 0)
  else (p, -1)

/-! ## The blocks that load the images -/

/-- A block that loads an image: whether it loads the kernel symbols, and whether it has a ring
buffer. -/
structure Block where
  image : Image
  ksyms : Bool
  ringBuffer : Bool
deriving DecidableEq, Repr

def Block.attach (b : Block) (a : Answers) (p : Proc) : Except (Proc × Exit) (Proc × Int) :=
  if a.attach ≠ 0 then .error (p, .cleanup a.attach)
  else if b.ringBuffer then
    if a.ringBuffer then .ok (p.acquire (.ringBuffer b.image), a.attach)
    else .error (p, .cleanup (-1))
  else .ok (p, a.attach)

def Block.control (b : Block) (a : Answers) (p : Proc) : Except (Proc × Exit) (Proc × Int) :=
  let (p, err) := commonPinMap p b.image a
  if err < 0 then .error (p, .cleanup err)
  else if a.update < 0 then .error (p, .cleanup a.update)
  else b.attach a p

/-- A failure of `ksyms__load` leaves `err` as it is. -/
def Block.load (b : Block) (a : Answers) (p : Proc) : Except (Proc × Exit) (Proc × Int) :=
  if a.load ≠ 0 then .error (p, .cleanup a.load)
  else if b.ksyms then
    if a.ksyms then b.control a (p.acquire .ksyms) else .error (p, .cleanup a.load)
  else b.control a p

def Block.run (b : Block) (a : Answers) (p : Proc) : Except (Proc × Exit) (Proc × Int) :=
  if a.opened then b.load a (p.acquire (.skeleton b.image)) else .error (p, .returned 1)

def resourceBlock : Block := ⟨.resource, false, false⟩

def syscallBlock : Block := ⟨.syscall, false, true⟩

def lockBlock : Block := ⟨.lock, false, true⟩

def keytimeBlock : Block := ⟨.keytime, true, true⟩

def scheduleBlock : Block := ⟨.schedule, false, false⟩

/-- The blocks of the enabled images, in the order in which they are executed. -/
def Env.blocks (env : Env) : List Block :=
  [resourceBlock, syscallBlock, lockBlock, keytimeBlock, scheduleBlock].filter
    fun b => env.enabled b.image

/-- The value of `err` is what the block before has left. -/
def setUp (env : Env) (answers : Image → Answers) : Except (Proc × Exit) (Proc × Int) :=
  env.blocks.foldlM (fun pe b => b.run (answers b.image) pe.1) (Proc.initial, 0)

/-! ## The loop and the label -/

/-- The thread is joined or created by an iteration, and that fails. -/
def Round.threadFails (env : Env) (round : Round) : Bool :=
  (env.enableResource || env.enableSchedule) &&
    ((round.exitThread && round.join ≠ 0) || (!round.createThread && round.create ≠ 0))

/-- What the calls that an iteration makes return. -/
def Round.calls (env : Env) (round : Round) : List Int :=
  (if env.enableResource && round.outputResourse then [round.printResource] else []) ++
  (if env.enableSyscall then [round.pollSyscall] else []) ++
  (if env.enableLock then [round.pollLock] else []) ++
  (if env.enableKeytime then [round.pollKeytime] else []) ++
  (if env.enableSchedule && round.outputSchedule then [round.printSchedule] else [])

/-- All calls are treated in the same way. -/
def check (_ : Int) (result : Int) : Except Exit Int :=
  if result = -eintr then .error (.cleanup 0)
  else if result < 0 then .error (.cleanup result)
  else .ok result

def iteration (env : Env) (err : Int) (round : Round) : Except Exit Int :=
  if round.threadFails env then .error .exited
  else (round.calls env).foldlM check err

/-- The iterations until `exiting` is set. -/
def mainLoop (env : Env) (rounds : List Round) (err : Int) : Exit :=
  match rounds.foldlM (iteration env) err with
  | .ok err => .cleanup err
  | .error exit => exit

/-- What is released for an image behind the label, in order. -/
def Block.resources (b : Block) : List Resource :=
  .ctrlMap b.image :: (if b.ksyms then [.ksyms] else []) ++
    (if b.ringBuffer then [.ringBuffer b.image] else []) ++ [.skeleton b.image]

/-- `bpf_map__unpin` and the destructors do nothing with `NULL`. -/
def cleanup (env : Env) (p : Proc) : Proc :=
  { p with log := releaseAll p.pointer (env.blocks.flatMap Block.resources) p.log }

def finish (env : Env) (p : Proc) : Exit → Proc × Int
  | .returned code => (p, code)
  | .cleanup err => (cleanup env p, if err < 0 then -err else 0)
  | .exited => (p, exitFailure)

def main (opts : List Opt) (argpParse : Int) (answers : Image → Answers) (rounds : List Round) :
    Proc × Int :=
  let env := Env.parse opts
  if argpParse ≠ 0 then (Proc.initial, argpParse)
  else
    match setUp env answers with
    | .ok (p, err) => finish env p (mainLoop env rounds err)
    | .error (p, exit) => finish env p exit

/-! ## What a block does -/

/-- Every step of a block succeeds. -/
structure Succeeds (b : Block) (a : Answers) : Prop where
  opened : a.opened = true
  load : a.load = 0
  ksyms : b.ksyms = true → a.ksyms = true
  foundMap : a.foundMap = true
  pin : a.pin = 0
  update : 0 ≤ a.update
  attach : a.attach = 0
  ringBuffer : b.ringBuffer = true → a.ringBuffer = true

instance (b : Block) (a : Answers) : Decidable (Succeeds b a) :=
  decidable_of_iff (a.opened = true ∧ a.load = 0 ∧ (b.ksyms = true → a.ksyms = true) ∧
      a.foundMap = true ∧ a.pin = 0 ∧ 0 ≤ a.update ∧ a.attach = 0 ∧
      (b.ringBuffer = true → a.ringBuffer = true))
    ⟨fun ⟨h1, h2, h3, h4, h5, h6, h7, h8⟩ => ⟨h1, h2, h3, h4, h5, h6, h7, h8⟩,
      fun h => ⟨h.1, h.2, h.3, h.4, h.5, h.6, h.7, h.8⟩⟩

/-- The block gets as far as the kernel symbols, and they cannot be loaded. -/
structure SymbolsFail (b : Block) (a : Answers) : Prop where
  opened : a.opened = true
  load : a.load = 0
  needed : b.ksyms = true
  ksyms : a.ksyms = false

/-- What is held has a pointer. -/
def Backed (p : Proc) : Prop := ∀ r, Held p.log r → p.pointer r = true

/-- Between two points of a program, the resources of a list have been acquired. -/
structure Adds (rs : List Resource) (p p' : Proc) : Prop where
  backed : Backed p'
  held : ∀ r, Held p'.log r ↔ r ∈ rs ∨ Held p.log r

/-- Nothing but the resources of a list has been acquired. -/
structure Within (rs : List Resource) (p p' : Proc) : Prop where
  backed : Backed p'
  held : ∀ r, Held p'.log r → r ∈ rs ∨ Held p.log r

/-- How a block is left when it fails. -/
def Fails (b : Block) (a : Answers) (p : Proc) : Proc × Exit → Prop
  | (p', .returned code) => a.opened = false ∧ code = 1 ∧ p' = p
  | (p', .cleanup err) =>
    a.opened = true ∧ ¬ Succeeds b a ∧ Within b.resources p p' ∧ (err = 0 ↔ SymbolsFail b a) ∧
      (a.load ≤ 0 → a.attach ≤ 0 → err ≤ 0)
  | (_, .exited) => False

/-- How a block is left when it succeeds. -/
def Loads (b : Block) (a : Answers) (p : Proc) (pe : Proc × Int) : Prop :=
  Succeeds b a ∧ pe.2 = 0 ∧ Adds b.resources p pe.1

section Blocks

variable {b : Block} {a : Answers} {p q : Proc} {r : Resource} {rs rs' : List Resource}

theorem Backed.acquire (h : Backed p) (r : Resource) : Backed (p.acquire r) := by
  intro s hs
  rcases held_acquired.mp hs with rfl | hs
  · exact Function.update_self _ _ _
  · by_cases hsr : s = r
    · subst hsr
      exact Function.update_self _ _ _
    · exact (Function.update_of_ne hsr _ _).trans (h s hs)

theorem Adds.refl (h : Backed p) : Adds [] p p := ⟨h, fun r => by simp⟩

theorem Adds.acquire (h : Adds rs p q) (r : Resource) : Adds (r :: rs) p (q.acquire r) := by
  refine ⟨h.backed.acquire r, fun s => ?_⟩
  simp only [Proc.acquire, held_acquired, h.held s, List.mem_cons, or_assoc, eq_comm]

theorem Adds.within (h : Adds rs p q) (hrs : rs ⊆ rs') : Within rs' p q :=
  ⟨h.backed, fun r hr => ((h.held r).mp hr).imp_left fun hmem => hrs hmem⟩

theorem Adds.congr (h : Adds rs p q) (hrs : ∀ r, r ∈ rs ↔ r ∈ rs') : Adds rs' p q :=
  ⟨h.backed, fun r => by rw [h.held r, hrs r]⟩

theorem mem_resources : r ∈ b.resources ↔
    r = .ctrlMap b.image ∨ (b.ksyms = true ∧ r = .ksyms) ∨
      (b.ringBuffer = true ∧ r = .ringBuffer b.image) ∨ r = .skeleton b.image := by
  unfold Block.resources
  cases b.ksyms <;> cases b.ringBuffer <;> simp

theorem mem_resources_of_held (h : r ∈ rs)
    (hrs : ∀ r ∈ rs, r = .ctrlMap b.image ∨ (b.ksyms = true ∧ r = .ksyms) ∨
      r = .skeleton b.image) : r ∈ b.resources := by
  rw [mem_resources]
  rcases hrs r h with hctrl | hksyms | hskel
  · exact .inl hctrl
  · exact .inr (.inl hksyms)
  · exact .inr (.inr (.inr hskel))

/-- A failure with an error other than the kernel symbols. -/
theorem fails_of_err {err : Int} (hopened : a.opened = true) (hnot : ¬ Succeeds b a)
    (hq : Within b.resources p q) (hksyms : ¬ SymbolsFail b a) (herr : err ≠ 0)
    (hle : a.load ≤ 0 → a.attach ≤ 0 → err ≤ 0) : Fails b a p (q, .cleanup err) :=
  ⟨hopened, hnot, hq, iff_of_false herr hksyms, hle⟩

/-- Everything but the ring buffer is there. -/
theorem Block.attach_meets (hopened : a.opened = true) (hksyms : ¬ SymbolsFail b a)
    (hq : Adds rs p q)
    (hrs : ∀ r, r ∈ rs ↔ r = .ctrlMap b.image ∨ (b.ksyms = true ∧ r = .ksyms) ∨
      r = .skeleton b.image)
    (hbefore : a.attach = 0 → (b.ringBuffer = true → a.ringBuffer = true) → Succeeds b a) :
    Meets (Fails b a p) (Loads b a p) (b.attach a q) := by
  have hwithin : Within b.resources p q :=
    hq.within fun r hr => mem_resources_of_held hr fun s hs => (hrs s).mp hs
  unfold Block.attach
  by_cases hattach : a.attach = 0
  · rw [if_neg (not_not.mpr hattach)]
    by_cases hring : b.ringBuffer = true
    · rw [if_pos hring]
      by_cases hgot : a.ringBuffer = true
      · rw [if_pos hgot]
        refine ⟨hbefore hattach fun _ => hgot, hattach, (hq.acquire _).congr fun r => ?_⟩
        rw [mem_resources, List.mem_cons, hrs r]
        grind
      · rw [if_neg hgot]
        exact fails_of_err hopened (fun h => hgot (h.ringBuffer hring)) hwithin hksyms (by decide)
          fun _ _ => by decide
    · rw [if_neg hring]
      refine ⟨hbefore hattach fun h => absurd h hring, hattach, hq.congr fun r => ?_⟩
      rw [mem_resources, hrs r]
      grind
  · rw [if_pos hattach]
    exact fails_of_err hopened (fun h => hattach h.attach) hwithin hksyms hattach fun _ h => h

/-- The control map is not held before it is pinned. -/
theorem Block.control_meets (hopened : a.opened = true) (hksyms : ¬ SymbolsFail b a)
    (hq : Adds rs p q)
    (hrs : ∀ r, r ∈ rs ↔ (b.ksyms = true ∧ r = .ksyms) ∨ r = .skeleton b.image)
    (hbefore : a.foundMap = true → a.pin = 0 → 0 ≤ a.update → a.attach = 0 →
      (b.ringBuffer = true → a.ringBuffer = true) → Succeeds b a) :
    Meets (Fails b a p) (Loads b a p) (b.control a q) := by
  have hmem : ∀ r ∈ rs, r = .ctrlMap b.image ∨ (b.ksyms = true ∧ r = .ksyms) ∨
      r = .skeleton b.image := fun r hr => .inr ((hrs r).mp hr)
  have hwithin : Within b.resources p q := hq.within fun r hr => mem_resources_of_held hr hmem
  unfold Block.control commonPinMap
  by_cases hfound : a.foundMap = true
  · let q' : Proc := ⟨Function.update q.pointer (.ctrlMap b.image) true,
      q.log ++ [.released (.ctrlMap b.image)]⟩
    have hbacked : Backed q' := by
      intro r hr
      obtain ⟨hne, hr⟩ := held_released.mp hr
      exact (Function.update_of_ne (Ne.symm hne) _ _).trans (hq.backed r hr)
    by_cases hpin : a.pin = 0
    · have hpinned : Adds (.ctrlMap b.image :: rs) p (q'.acquire (.ctrlMap b.image)) := by
        refine ⟨hbacked.acquire _, fun r => ?_⟩
        simp only [q', Proc.acquire, held_acquired, held_released, hq.held r, List.mem_cons]
        grind
      have hrs' : ∀ r, r ∈ .ctrlMap b.image :: rs ↔ r = .ctrlMap b.image ∨
          (b.ksyms = true ∧ r = .ksyms) ∨ r = .skeleton b.image := by
        intro r
        rw [List.mem_cons, hrs r]
      simp only [hfound, hpin, if_true, ne_eq, not_true, if_false, Int.lt_irrefl]
      by_cases hupdate : a.update < 0
      · rw [if_pos hupdate]
        refine fails_of_err hopened (fun h => absurd h.update (by omega)) ?_ hksyms (by omega)
          fun _ _ => by omega
        exact hpinned.within fun r hr => mem_resources_of_held hr fun s hs => (hrs' s).mp hs
      · rw [if_neg hupdate]
        exact Block.attach_meets hopened hksyms hpinned hrs'
          (hbefore hfound hpin (by omega))
    · simp only [hfound, hpin, if_true, ne_eq, not_false_iff, Int.neg_neg_iff_pos, Int.one_pos]
      refine fails_of_err hopened (fun h => hpin h.pin) ⟨hbacked, fun r hr => ?_⟩ hksyms
        (by decide) fun _ _ => by decide
      exact hwithin.held r (held_released.mp hr).2
  · simp only [hfound, Bool.false_eq_true, if_false, Int.neg_neg_iff_pos, Int.one_pos, if_true]
    exact fails_of_err hopened (fun h => hfound h.foundMap) hwithin hksyms (by decide)
      fun _ _ => by decide

/-- The skeleton is open. -/
theorem Block.load_meets (hopened : a.opened = true) (hq : Adds [.skeleton b.image] p q) :
    Meets (Fails b a p) (Loads b a p) (b.load a q) := by
  have hwithin : Within b.resources p q :=
    hq.within fun r hr => mem_resources.mpr (.inr (.inr (.inr (List.mem_singleton.mp hr))))
  unfold Block.load
  by_cases hload : a.load = 0
  · rw [if_neg (not_not.mpr hload)]
    by_cases hneeded : b.ksyms = true
    · rw [if_pos hneeded]
      by_cases hksyms : a.ksyms = true
      · rw [if_pos hksyms]
        refine Block.control_meets hopened (fun h => ?_) (hq.acquire .ksyms) (fun r => ?_)
          fun hfound hpin hupdate hattach hring =>
            ⟨hopened, hload, fun _ => hksyms, hfound, hpin, hupdate, hattach, hring⟩
        · exact absurd (h.ksyms.symm.trans hksyms) Bool.false_ne_true
        · simp [hneeded]
      · rw [if_neg hksyms]
        -- `err` is still the result of loading the skeleton
        refine ⟨hopened, fun h => hksyms (h.ksyms hneeded), hwithin, iff_of_true hload ?_,
          fun h _ => h⟩
        exact ⟨hopened, hload, hneeded, Bool.eq_false_iff.mpr hksyms⟩
    · rw [if_neg hneeded]
      refine Block.control_meets hopened (fun h => hneeded h.needed) hq (fun r => ?_)
        fun hfound hpin hupdate hattach hring =>
          ⟨hopened, hload, fun h => absurd h hneeded, hfound, hpin, hupdate, hattach, hring⟩
      simp [hneeded]
  · rw [if_pos hload]
    exact fails_of_err hopened (fun h => hload h.load) hwithin (fun h => hload h.load) hload
      fun h _ => h

theorem Block.run_meets (hp : Backed p) :
    Meets (Fails b a p) (Loads b a p) (b.run a p) := by
  unfold Block.run
  by_cases hopened : a.opened = true
  · rw [if_pos hopened]
    exact Block.load_meets hopened ((Adds.refl hp).acquire _)
  · rw [if_neg hopened]
    exact ⟨Bool.eq_false_iff.mpr hopened, rfl, rfl⟩

theorem Backed.initial : Backed Proc.initial := fun _ h => absurd h not_held_nil

theorem Adds.trans (h : Adds rs p q) {q' : Proc} (h' : Adds rs' q q') : Adds (rs ++ rs') p q' := by
  refine ⟨h'.backed, fun r => ?_⟩
  rw [h'.held r, h.held r, List.mem_append, or_left_comm, or_assoc]

theorem Adds.trans_within (h : Adds rs p q) {q' : Proc} (h' : Within rs' q q') :
    Within (rs ++ rs') p q' := by
  refine ⟨h'.backed, fun r hr => ?_⟩
  rw [List.mem_append]
  rcases h'.held r hr with hmem | hheld
  · exact .inl (.inr hmem)
  · exact ((h.held r).mp hheld).imp_left .inl

end Blocks

/-! ## How the program is left -/

section Ends

variable (env : Env) (answers : Image → Answers) (rounds : List Round)

def loads (b : Block) : Bool := decide (Succeeds b (answers b.image))

/-- The block that fails, if one does. -/
def Env.failure : Option Block := env.blocks.find? fun b => !loads answers b

/-- The blocks that are executed without a failure. -/
def Env.loaded : List Block := env.blocks.takeWhile (loads answers)

/-- All calls of an iteration return what lets the loop go on. -/
def Round.goesOn (round : Round) : Bool :=
  !round.threadFails env && (round.calls env).all fun result => 0 ≤ result

/-- The iteration that ends the loop, if one does before `exiting` is set. -/
def Env.lastRound : Option Round := rounds.find? fun round => !round.goesOn env

/-- The first call that ends the loop was interrupted. -/
def Round.interrupted (round : Round) : Prop :=
  (round.calls env).find? (fun result => !decide (0 ≤ result)) = some (-eintr)

variable {env answers rounds}

/-- What is held where the blocks are left. -/
def SetUpFails (answers : Image → Answers) (done : List Block) (b : Block) : Proc × Exit → Prop
  | (p, .returned code) => (answers b.image).opened = false ∧ code = 1 ∧
    Adds (done.flatMap Block.resources) Proc.initial p
  | (p, .cleanup err) => (answers b.image).opened = true ∧
    Within ((done ++ [b]).flatMap Block.resources) Proc.initial p ∧
    (err = 0 ↔ SymbolsFail b (answers b.image)) ∧
    ((answers b.image).load ≤ 0 → (answers b.image).attach ≤ 0 → err ≤ 0)
  | (_, .exited) => False

theorem setUp_meets (env : Env) (answers : Image → Answers) :
    Meets (fun e => ∃ b, env.failure answers = some b ∧
        SetUpFails answers (env.loaded answers) b e)
      (fun pe => env.failure answers = none ∧ pe.2 = 0 ∧
        Adds (env.blocks.flatMap Block.resources) Proc.initial pe.1) (setUp env answers) := by
  refine meets_foldlM_first (loads answers)
    (fun pre (pe : Proc × Int) =>
      pe.2 = 0 ∧ Adds (pre.flatMap Block.resources) Proc.initial pe.1) (SetUpFails answers) ?_
    ⟨rfl, Adds.refl Backed.initial⟩
  rintro pre b ⟨p, err⟩ ⟨-, hp⟩
  have hrun := Block.run_meets (b := b) (a := answers b.image) hp.backed
  cases hr : b.run (answers b.image) p with
  | ok pe =>
    rw [hr] at hrun
    obtain ⟨hall, herr, hadds⟩ := hrun
    refine ⟨decide_eq_true hall, herr, ?_⟩
    rw [List.flatMap_append, List.flatMap_singleton]
    exact hp.trans hadds
  | error e =>
    rw [hr] at hrun
    obtain ⟨p', exit⟩ := e
    cases exit with
    | returned code =>
      obtain ⟨hopened, hcode, rfl⟩ := hrun
      refine ⟨decide_eq_false fun h => ?_, hopened, hcode, hp⟩
      exact Bool.false_ne_true (hopened.symm.trans h.opened)
    | cleanup err' =>
      obtain ⟨hopened, hnot, hwithin, hzero, hle⟩ := hrun
      refine ⟨decide_eq_false hnot, hopened, ?_, hzero, hle⟩
      rw [List.flatMap_append, List.flatMap_singleton]
      exact hp.trans_within hwithin
    | exited => exact hrun.elim

/-- Behind the label nothing is held that was acquired for an enabled image. -/
theorem not_held_cleanup {p : Proc} {rs : List Resource} (h : Within rs Proc.initial p)
    (hrs : rs ⊆ env.blocks.flatMap Block.resources) (r : Resource) :
    ¬ Held (cleanup env p).log r := by
  intro hr
  obtain ⟨hheld, hnot⟩ := (held_releaseAll p.pointer _).mp hr
  refine hnot ⟨?_, h.backed r hheld⟩
  exact hrs ((h.held r hheld).resolve_right not_held_nil)

theorem check_meets (err result : Int) :
    Meets (fun e => decide (0 ≤ result) = false ∧
        ∃ err', e = .cleanup err' ∧ err' ≤ 0 ∧ (err' = 0 ↔ result = -eintr))
      (fun err' => decide (0 ≤ result) = true ∧ 0 ≤ err') (check err result) := by
  unfold check
  by_cases hintr : result = -eintr
  · rw [if_pos hintr]
    refine ⟨?_, 0, rfl, le_refl 0, iff_of_true rfl hintr⟩
    rw [hintr]
    decide
  · rw [if_neg hintr]
    by_cases hneg : result < 0
    · rw [if_pos hneg]
      exact ⟨decide_eq_false (by omega), result, rfl, by omega, iff_of_false (by omega) hintr⟩
    · rw [if_neg hneg]
      exact ⟨decide_eq_true (by omega), by omega⟩

/-- The calls of an iteration, from an `err` that is no error. -/
theorem calls_meets (env : Env) (round : Round) {err : Int} (herr : 0 ≤ err) :
    Meets (fun e => ((round.calls env).all fun result => 0 ≤ result) = false ∧
        ∃ err', e = .cleanup err' ∧ err' ≤ 0 ∧ (err' = 0 ↔ round.interrupted env))
      (fun err' => ((round.calls env).all fun result => 0 ≤ result) = true ∧ 0 ≤ err')
      ((round.calls env).foldlM check err) := by
  have hrun := meets_foldlM_first (l := round.calls env) (f := check) (a := err)
    (fun result => decide (0 ≤ result)) (fun _ err => 0 ≤ err)
    (fun _ result e => ∃ err', e = .cleanup err' ∧ err' ≤ 0 ∧ (err' = 0 ↔ result = -eintr))
    (fun _ result err _ => check_meets err result) herr
  cases hr : (round.calls env).foldlM check err with
  | ok err' =>
    rw [hr] at hrun
    refine ⟨List.all_eq_true.mpr fun result hmem => ?_, hrun.2⟩
    simpa using List.find?_eq_none.mp hrun.1 result hmem
  | error e =>
    rw [hr] at hrun
    obtain ⟨result, hfind, err', he, hle, hzero⟩ := hrun
    refine ⟨?_, err', he, hle, ?_⟩
    · rw [List.all_eq_false]
      have hbad := List.find?_some hfind
      exact ⟨result, List.mem_of_find?_eq_some hfind, by simpa using hbad⟩
    · rw [hzero, Round.interrupted, hfind, Option.some.injEq]

/-- What ends the loop. -/
def LoopEnds (env : Env) (round : Round) : Exit → Prop
  | .returned _ => False
  | .cleanup err =>
    round.threadFails env = false ∧ err ≤ 0 ∧ (err = 0 ↔ round.interrupted env)
  | .exited => round.threadFails env = true

theorem iteration_meets (round : Round) {err : Int} (herr : 0 ≤ err) :
    Meets (fun e => round.goesOn env = false ∧ LoopEnds env round e)
      (fun err' => round.goesOn env = true ∧ 0 ≤ err') (iteration env err round) := by
  unfold iteration Round.goesOn
  by_cases hthread : round.threadFails env = true
  · rw [if_pos hthread]
    refine ⟨?_, hthread⟩
    rw [hthread]
    rfl
  · rw [if_neg hthread]
    have hcalls := calls_meets env round herr
    have hoff : round.threadFails env = false := Bool.eq_false_iff.mpr hthread
    cases hr : (round.calls env).foldlM check err with
    | ok err' =>
      rw [hr] at hcalls
      refine ⟨?_, hcalls.2⟩
      rw [hoff, hcalls.1]
      rfl
    | error e =>
      rw [hr] at hcalls
      obtain ⟨hall, err', rfl, hle, hzero⟩ := hcalls
      refine ⟨?_, hoff, hle, hzero⟩
      rw [hall, Bool.and_false]

theorem mainLoop_cases (env : Env) (rounds : List Round) :
    (env.lastRound rounds = none ∧ ∃ err, mainLoop env rounds 0 = .cleanup err ∧ 0 ≤ err) ∨
      ∃ round, env.lastRound rounds = some round ∧ LoopEnds env round (mainLoop env rounds 0) := by
  have hrun := meets_foldlM_first (l := rounds) (f := iteration env) (a := 0)
    (fun round => round.goesOn env) (fun _ err => 0 ≤ err) (fun _ round e => LoopEnds env round e)
    (fun _ round err herr => iteration_meets round herr) (le_refl 0)
  unfold mainLoop
  cases hr : rounds.foldlM (iteration env) 0 with
  | ok err =>
    rw [hr] at hrun
    exact .inl ⟨hrun.1, err, rfl, hrun.2⟩
  | error e =>
    rw [hr] at hrun
    exact .inr hrun

/-- The program is left by `exit` or by a `return` before the label, and not by the label. -/
def Env.Abandons (env : Env) (answers : Image → Answers) (rounds : List Round) : Prop :=
  (∃ b, env.failure answers = some b ∧ (answers b.image).opened = false) ∨
    env.failure answers = none ∧
      ∃ round, env.lastRound rounds = some round ∧ round.threadFails env = true

theorem loaded_of_failure_eq_none (h : env.failure answers = none) :
    env.loaded answers = env.blocks := by
  refine List.takeWhile_eq_self_iff.mpr fun b hb => ?_
  simpa using List.find?_eq_none.mp h b hb

theorem mem_blocks_of_failure {b : Block} (h : env.failure answers = some b) {c : Block}
    (hc : c ∈ env.loaded answers ++ [b]) : c ∈ env.blocks := by
  rcases List.mem_append.mp hc with hc | hc
  · exact (List.takeWhile_prefix _).subset hc
  · rw [List.mem_singleton.mp hc]
    exact List.mem_of_find?_eq_some h

/-- All images are loaded, and the loop runs to its end. -/
theorem held_finish {p : Proc} (hp : Adds (env.blocks.flatMap Block.resources) Proc.initial p)
    (hnone : env.failure answers = none) (r : Resource) :
    Held (finish env p (mainLoop env rounds 0)).1.log r ↔
      env.Abandons answers rounds ∧ r ∈ (env.loaded answers).flatMap Block.resources := by
  have hkept : Held p.log r ↔ r ∈ (env.loaded answers).flatMap Block.resources := by
    rw [hp.held r, loaded_of_failure_eq_none hnone]
    exact or_iff_left not_held_nil
  have hwithin : Within (env.blocks.flatMap Block.resources) Proc.initial p :=
    hp.within (List.Subset.refl _)
  have hcleaned := not_held_cleanup hwithin (List.Subset.refl _) r
  rcases mainLoop_cases env rounds with ⟨hlast, err, hexit, -⟩ | ⟨round, hlast, hends⟩
  · rw [hexit]
    refine iff_of_false hcleaned fun ⟨habandons, _⟩ => ?_
    rcases habandons with ⟨b, hb, -⟩ | ⟨-, round, hround, -⟩
    · cases hnone.symm.trans hb
    · cases hlast.symm.trans hround
  · cases hexit : mainLoop env rounds 0 with
    | returned code =>
      rw [hexit] at hends
      exact hends.elim
    | cleanup err =>
      rw [hexit] at hends
      refine iff_of_false hcleaned fun ⟨habandons, _⟩ => ?_
      rcases habandons with ⟨b, hb, -⟩ | ⟨-, round', hround', hthread⟩
      · cases hnone.symm.trans hb
      · cases hlast.symm.trans hround'
        exact Bool.false_ne_true (hends.1.symm.trans hthread)
    | exited =>
      rw [hexit] at hends
      rw [and_iff_right (.inr ⟨hnone, round, hlast, hends⟩)]
      exact hkept

/-- What is still held when the program has ended: if a skeleton cannot be opened, or a thread
cannot be created or joined, everything of the images that were loaded, otherwise nothing. -/
theorem held_main (opts : List Opt) (argpParse : Int) (answers : Image → Answers)
    (rounds : List Round) (r : Resource) :
    Held (main opts argpParse answers rounds).1.log r ↔
      argpParse = 0 ∧ (Env.parse opts).Abandons answers rounds ∧
        r ∈ ((Env.parse opts).loaded answers).flatMap Block.resources := by
  unfold main
  generalize Env.parse opts = env
  by_cases hargp : argpParse = 0
  · simp only [hargp, ne_eq, not_true, if_false, true_and]
    have hsetUp := setUp_meets env answers
    cases hs : setUp env answers with
    | ok pe =>
      obtain ⟨p, err⟩ := pe
      rw [hs] at hsetUp
      obtain ⟨hnone, rfl, hp⟩ := hsetUp
      exact held_finish hp hnone r
    | error e =>
      obtain ⟨p, exit⟩ := e
      rw [hs] at hsetUp
      obtain ⟨b, hb, hfails⟩ := hsetUp
      cases exit with
      | returned code =>
        obtain ⟨hopened, -, hp⟩ := hfails
        rw [and_iff_right (.inl ⟨b, hb, hopened⟩)]
        exact (hp.held r).trans (or_iff_left not_held_nil)
      | cleanup err =>
        obtain ⟨hopened, hwithin, -⟩ := hfails
        refine iff_of_false (not_held_cleanup hwithin ?_ r) ?_
        · intro s hs
          obtain ⟨c, hc, hs⟩ := List.mem_flatMap.mp hs
          exact List.mem_flatMap.mpr ⟨c, mem_blocks_of_failure hb hc, hs⟩
        · rintro ⟨⟨b', hb', hopened'⟩ | ⟨hnone, -⟩, -⟩
          · cases hb.symm.trans hb'
            exact Bool.false_ne_true (hopened'.symm.trans hopened)
          · cases hnone.symm.trans hb
      | exited => exact hfails.elim
  · simp only [hargp, ne_eq, not_false_iff, if_true, false_and, iff_false]
    exact not_held_nil

/-- A kernel that refuses nothing. -/
def granted : Answers := ⟨true, 0, true, true, 0, 0, 0, true⟩

-- the control map of the first image stays pinned if the skeleton of the second cannot be opened
example : Held (main [.all] 0 (fun i => { granted with opened := i ≠ .syscall }) []).1.log
    (.ctrlMap .resource) := by decide

theorem status_finish (env : Env) (p : Proc) (rounds : List Round) :
    (finish env p (mainLoop env rounds 0)).2 = 0 ↔
      ∀ round ∈ env.lastRound rounds,
        round.threadFails env = false ∧ round.interrupted env := by
  rcases mainLoop_cases env rounds with ⟨hlast, err, hexit, herr⟩ | ⟨round, hlast, hends⟩
  · rw [hexit, hlast]
    refine iff_of_true (if_neg (by omega)) fun round hround => ?_
    cases hround
  · simp only [hlast, Option.mem_some_iff, forall_eq']
    cases hexit : mainLoop env rounds 0 with
    | returned code =>
      rw [hexit] at hends
      exact hends.elim
    | cleanup err =>
      rw [hexit] at hends
      obtain ⟨hthread, hle, hzero⟩ := hends
      rw [and_iff_right hthread, ← hzero]
      show (if err < 0 then -err else 0) = 0 ↔ err = 0
      split_ifs <;> omega
    | exited =>
      rw [hexit] at hends
      refine iff_of_false (show ¬ exitFailure = 0 by decide) fun h => ?_
      exact Bool.false_ne_true (h.1.symm.trans hends)

/-- The program is left with status 0 exactly if the options are valid and nothing fails but the
loading of the kernel symbols, or the loop ends because it is told to. -/
theorem status_main (opts : List Opt) (argpParse : Int) (answers : Image → Answers)
    (rounds : List Round) (hlibbpf : ∀ i, (answers i).load ≤ 0 ∧ (answers i).attach ≤ 0) :
    (main opts argpParse answers rounds).2 = 0 ↔
      argpParse = 0 ∧
        ((∃ b, (Env.parse opts).failure answers = some b ∧
            SymbolsFail b (answers b.image)) ∨
          (Env.parse opts).failure answers = none ∧
            ∀ round ∈ (Env.parse opts).lastRound rounds,
              round.threadFails (Env.parse opts) = false ∧
                round.interrupted (Env.parse opts)) := by
  unfold main
  generalize Env.parse opts = env
  by_cases hargp : argpParse = 0
  · simp only [hargp, ne_eq, not_true, if_false, true_and]
    have hsetUp := setUp_meets env answers
    cases hs : setUp env answers with
    | ok pe =>
      obtain ⟨p, err⟩ := pe
      rw [hs] at hsetUp
      obtain ⟨hnone, rfl, -⟩ := hsetUp
      simp only [hnone, reduceCtorEq, false_and, exists_false, false_or, true_and]
      exact status_finish env p rounds
    | error e =>
      obtain ⟨p, exit⟩ := e
      rw [hs] at hsetUp
      obtain ⟨b, hb, hfails⟩ := hsetUp
      have hsome : ((∃ b, env.failure answers = some b ∧ SymbolsFail b (answers b.image)) ∨
          env.failure answers = none ∧ ∀ round ∈ env.lastRound rounds,
            round.threadFails env = false ∧ round.interrupted env) ↔
          SymbolsFail b (answers b.image) := by
        simp [hb]
      rw [hsome]
      cases exit with
      | returned code =>
        obtain ⟨hopened, rfl, -⟩ := hfails
        refine iff_of_false (show ¬ (1 : Int) = 0 by decide) fun h => ?_
        exact Bool.false_ne_true (hopened.symm.trans h.opened)
      | cleanup err =>
        obtain ⟨-, -, hzero, hle⟩ := hfails
        have herr := hle (hlibbpf b.image).1 (hlibbpf b.image).2
        rw [← hzero]
        show (if err < 0 then -err else 0) = 0 ↔ err = 0
        split_ifs <;> omega
      | exited => exact hfails.elim
  · simp only [hargp, ne_eq, not_false_iff, if_true, false_and]

/-- Without the kernel symbols nothing is traced, and the status is 0. -/
theorem status_main_no_symbols :
    (main [.all] 0 (fun _ => { granted with ksyms := false }) []).2 = 0 := by
  refine (status_main [.all] 0 (fun _ => { granted with ksyms := false }) [] fun _ => ?_).mpr
    ⟨rfl, .inl ⟨keytimeBlock, by decide, ⟨rfl, rfl, rfl, rfl⟩⟩⟩
  exact ⟨le_refl 0, le_refl 0⟩

end Ends

end CpuSubsystem.ProcImage
