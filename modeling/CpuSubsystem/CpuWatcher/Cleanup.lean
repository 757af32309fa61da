import Mathlib.Logic.Function.Basic
import Mathlib.Tactic.Common

/-!
# Loading and unloading a tool (`main` in `cpu_watcher.c`)

`main` loads one tool, pins its control map, polls until it is told to stop, and unloads the tool
behind a label of its own.  What the kernel, `libbpf` and the calls in the loop return is given by
`Answers`; what they change outside the process is kept in a log.
-/

namespace CpuSubsystem.CpuWatcher

/-- The programs with a skeleton. -/
inductive Tool where
  | csDelay | preempt | syscallDelay | scheduleDelay | sar | mqDelay | mutrace
deriving DecidableEq, Repr

/-- The options that select a tool, which can be given together. -/
structure Env where
  sar : Bool
  csDelay : Bool
  syscallDelay : Bool
  preempt : Bool
  scheduleDelay : Bool
  mqDelay : Bool
  mutrace : Bool
deriving DecidableEq, Repr

/-- What is returned to `main`: pointers are `true` when they are not `NULL`, `rounds` is what the
calls in the loop return until `exiting` is set. -/
structure Answers where
  argpParse : Int
  numPossibleCpus : Int
  opened : Bool
  load : Int
  perfEvents : Int
  foundMap : Bool
  pin : Int
  update : Int
  attach : Int
  ringBuffer : Bool
  rounds : List Int
deriving DecidableEq, Repr

/-- A skeleton is opened or destroyed, a control map is pinned or unpinned. -/
inductive Effect where
  | opened (t : Tool)
  | pinned (t : Tool)
  | unpinned (t : Tool)
  | destroyed (t : Tool)
deriving DecidableEq, Repr

/-- Which of the pointers to skeletons, to control maps and to the ring buffer are not `NULL`. -/
structure Proc where
  skel : Tool → Bool
  ctrlMap : Tool → Bool
  rb : Bool
  log : List Effect

def Proc.initial : Proc := ⟨fun _ => false, fun _ => false, false, []⟩

inductive Label where
  | csDelayCleanup | sarCleanup | scDelayCleanup | preemptCleanup | scheduleCleanup | mqDelayCleanup
  | mutraceCleanup
deriving DecidableEq, Repr

/-- How the part of `main` that loads a tool is left. -/
inductive Exit where
  | returned (code : Int)
  | goto (label : Label) (err : Int)
  | loop (err : Int)
deriving DecidableEq, Repr

/-- `MAX_CPU_NR`. -/
abbrev maxCpuNr : Int := 128

/-- `EINTR`. -/
abbrev eintr : Int := 4

def commonPinMap (p : Proc) (t : Tool) (a : Answers) : Proc × Int :=
  if a.foundMap then
    -- a map that a run before this one left pinned is unpinned first
    let p := { p with
      ctrlMap := Function.update p.ctrlMap t true, log := p.log ++ [.unpinned t] }
    if a.pin ≠ 0 then (p, -1) else ({ p with log := p.log ++ [.pinned t] }, 0)
  else (p, -1)

/-! ## The blocks that load the tools -/

/-- A block that loads a tool: whether it attaches to perf events, has a control map and a ring
buffer, and where it jumps. -/
structure Block where
  tool : Tool
  perfEvents : Bool
  ctrlMap : Bool
  ringBuffer : Bool
  label : Label
deriving DecidableEq, Repr

def Block.attach (b : Block) (a : Answers) (p : Proc) : Proc × Exit :=
  if a.attach ≠ 0 then (p, .goto b.label a.attach)
  else if b.ringBuffer then
    if a.ringBuffer then ({ p with rb := true }, .loop a.attach) else (p, .goto b.label (-1))
  else (p, .loop a.attach)

def Block.control (b : Block) (a : Answers) (p : Proc) : Proc × Exit :=
  if b.ctrlMap then
    let (p, err) := commonPinMap p b.tool a
    if err < 0 then (p, .goto b.label err)
    else if a.update < 0 then (p, .goto b.label a.update)
    else b.attach a p
  else b.attach a p

def Block.run (b : Block) (a : Answers) (p : Proc) : Proc × Exit :=
  if a.opened then
    let p := { p with
      skel := Function.update p.skel b.tool true, log := p.log ++ [.opened b.tool] }
    if a.load ≠ 0 then (p, .goto b.label a.load)
    else if b.perfEvents ∧ a.perfEvents ≠ 0 then (p, .goto b.label a.perfEvents)
    else b.control a p
  else (p, .returned 1)

def csDelayBlock : Block := ⟨.csDelay, false, true, true, .csDelayCleanup⟩

def preemptBlock : Block := ⟨.preempt, false, true, true, .preemptCleanup⟩

def syscallDelayBlock : Block := ⟨.syscallDelay, false, true, true, .scDelayCleanup⟩

def scheduleDelayBlock : Block := ⟨.scheduleDelay, false, true, false, .scheduleCleanup⟩

def sarBlock : Block := ⟨.sar, true, true, false, .sarCleanup⟩

def mqDelayBlock : Block := ⟨.mqDelay, false, true, true, .mqDelayCleanup⟩

def mutraceBlock : Block := ⟨.mutrace, false, false, true, .mutraceCleanup⟩

/-- The block that is executed: the first one whose option is given. -/
def Env.block (env : Env) : Option Block :=
  if env.csDelay then some csDelayBlock
  else if env.preempt then some preemptBlock
  else if env.syscallDelay then some syscallDelayBlock
  else if env.scheduleDelay then some scheduleDelayBlock
  else if env.sar then some sarBlock
  else if env.mqDelay then some mqDelayBlock
  else if env.mutrace then some mutraceBlock
  else none

/-! ## The loop and the labels -/

/-- The loop has a branch for every option, in another order than the blocks; all of them treat what
their call returns in the same way. -/
def Env.polls (env : Env) : Bool :=
  env.sar || env.csDelay || env.syscallDelay || env.preempt || env.scheduleDelay ||
    env.mqDelay || env.mutrace

def mainLoop (env : Env) : List Int → Int → Int
  | [], err => err
  | result :: rounds, err =>
    if env.polls then
      if result = -eintr then 0
      else if result < 0 then result
      else mainLoop env rounds result
    else err

/-- What stands behind a label: the control map is unpinned, the ring buffer is freed, the skeleton
is destroyed.  `bpf_map__unpin` and the destructors do nothing with `NULL`. -/
def cleanup (t : Tool) (unpins frees : Bool) (err : Int) (p : Proc) : Proc × Int :=
  let p := if unpins ∧ p.ctrlMap t then { p with log := p.log ++ [.unpinned t] } else p
  let p := if frees then { p with rb := false } else p
  let p := if p.skel t then
    { p with skel := Function.update p.skel t false, log := p.log ++ [.destroyed t] } else p
  (p, if err < 0 then -err else 0)

def Label.run : Label → Int → Proc → Proc × Int
  | .csDelayCleanup => cleanup .csDelay true true
  | .sarCleanup => cleanup .sar true false
  | .scDelayCleanup => cleanup .syscallDelay true true
  | .preemptCleanup => cleanup .preempt true true
  | .scheduleCleanup => cleanup .scheduleDelay true false
  | .mqDelayCleanup => cleanup .mqDelay true true
  | .mutraceCleanup => cleanup .mutrace false true

def setUp (env : Env) (a : Answers) (p : Proc) : Proc × Exit :=
  match env.block with
  | some b => b.run a p
  | none => (p, .loop 0)

def main (env : Env) (a : Answers) : Proc × Int :=
  if a.argpParse ≠ 0 then (Proc.initial, a.argpParse)
  else if a.numPossibleCpus < 0 ∨ maxCpuNr < a.numPossibleCpus then (Proc.initial, 1)
  else
    match setUp env a Proc.initial with
    | (p, .returned code) => (p, code)
    | (p, .goto label err) => label.run err p
    -- the first label stands right behind the loop
    | (p, .loop err) => Label.csDelayCleanup.run (mainLoop env a.rounds err) p

/-! ## What should be left behind -/

/-- After a control map has been pinned it is unpinned, and the skeleton is destroyed. -/
def LeavesNothing (log : List Effect) : Prop :=
  ∀ t before after, log = before ++ .pinned t :: after →
    .unpinned t ∈ after ∧ .destroyed t ∈ after

/-- Every step of a block succeeds. -/
structure Succeeds (b : Block) (a : Answers) : Prop where
  opened : a.opened = true
  load : a.load = 0
  perfEvents : b.perfEvents = true → a.perfEvents = 0
  foundMap : b.ctrlMap = true → a.foundMap = true
  pin : b.ctrlMap = true → a.pin = 0
  update : b.ctrlMap = true → 0 ≤ a.update
  attach : a.attach = 0
  ringBuffer : b.ringBuffer = true → a.ringBuffer = true

/-- `main` enters its loop with the control map of a tool pinned. -/
def EntersLoop (b : Block) (a : Answers) : Prop :=
  a.argpParse = 0 ∧ 0 ≤ a.numPossibleCpus ∧ a.numPossibleCpus ≤ maxCpuNr ∧ Succeeds b a

section Logs

variable {log suffix : List Effect} {p : Proc} {t : Tool}

theorem leavesNothing_of_no_pin (h : ∀ t, .pinned t ∉ log) : LeavesNothing log := by
  rintro t before after rfl
  exact absurd (List.mem_append_right _ List.mem_cons_self) (h t)

/-- What is done at the end of a log counts for every pin in it. -/
theorem leavesNothing_append
    (h : ∀ t, .pinned t ∈ log → .unpinned t ∈ suffix ∧ .destroyed t ∈ suffix)
    (hs : ∀ t, .pinned t ∉ suffix) : LeavesNothing (log ++ suffix) := by
  intro t before after heq
  rcases List.append_eq_append_iff.mp heq with ⟨u, -, hsuffix⟩ | ⟨u, hlog, hrest⟩
  · have hmem : Effect.pinned t ∈ suffix := by
      rw [hsuffix]
      exact List.mem_append_right _ List.mem_cons_self
    exact absurd hmem (hs t)
  · cases u with
    | nil =>
      have hmem : Effect.pinned t ∈ suffix := by
        rw [← List.nil_append suffix, ← hrest]
        exact List.mem_cons_self
      exact absurd hmem (hs t)
    | cons x u =>
      obtain ⟨rfl, rfl⟩ := List.cons.inj hrest
      obtain ⟨hunpin, hdestroy⟩ := h t (by
        rw [hlog]
        exact List.mem_append_right _ List.mem_cons_self)
      exact ⟨List.mem_append_right _ hunpin, List.mem_append_right _ hdestroy⟩

/-- A label cleans up what its tool has. -/
theorem cleanup_log (t : Tool) (unpins frees : Bool) (err : Int) (p : Proc) :
    (cleanup t unpins frees err p).1.log =
      p.log ++ ((if unpins ∧ p.ctrlMap t then [.unpinned t] else []) ++
        if p.skel t then [.destroyed t] else []) := by
  unfold cleanup
  by_cases hmap : unpins = true ∧ p.ctrlMap t = true <;> by_cases hskel : p.skel t = true <;>
    cases frees <;> simp [hmap, hskel]

end Logs

/-- What a block holds when it is left. -/
structure Holds (b : Block) (p : Proc) : Prop where
  skel : p.skel = Function.update (fun _ => false) b.tool true
  ctrlMap : ∀ t, p.ctrlMap t = true → t = b.tool
  pinned : ∀ t, .pinned t ∈ p.log → t = b.tool ∧ b.ctrlMap = true ∧ p.ctrlMap b.tool = true

/-- How a block is left. -/
inductive Leaves (b : Block) (a : Answers) : Proc × Exit → Prop
  | unopened (h : ¬ Succeeds b a) : Leaves b a (Proc.initial, .returned 1)
  | failed {p : Proc} {err : Int} (h : ¬ Succeeds b a) (hp : Holds b p) :
    Leaves b a (p, .goto b.label err)
  | ready {p : Proc} {err : Int} (h : Succeeds b a) (hp : Holds b p)
    (hpin : b.ctrlMap = true → ∃ before, p.log = before ++ [.pinned b.tool]) :
    Leaves b a (p, .loop err)

section Blocks

variable {b : Block} {a : Answers} {p : Proc} {env : Env} {t : Tool}

theorem Block.attach_leaves (hp : Holds b p)
    (hpin : b.ctrlMap = true → ∃ before, p.log = before ++ [.pinned b.tool])
    (hbefore : a.attach = 0 → (b.ringBuffer = true → a.ringBuffer = true) → Succeeds b a) :
    Leaves b a (b.attach a p) := by
  unfold Block.attach
  by_cases hattach : a.attach = 0
  · rw [if_neg (not_not.mpr hattach)]
    by_cases hring : b.ringBuffer = true
    · rw [if_pos hring]
      by_cases hgot : a.ringBuffer = true
      · rw [if_pos hgot]
        exact .ready (hbefore hattach fun _ => hgot) ⟨hp.skel, hp.ctrlMap, hp.pinned⟩ hpin
      · rw [if_neg hgot]
        exact .failed (fun h => hgot (h.ringBuffer hring)) hp
    · rw [if_neg hring]
      exact .ready (hbefore hattach fun h => absurd h hring) hp hpin
  · rw [if_pos hattach]
    exact .failed (fun h => hattach h.attach) hp

/-- The skeleton is open, and nothing else is held. -/
theorem Block.control_leaves
    (hskel : p.skel = Function.update (fun _ => false) b.tool true)
    (hmap : p.ctrlMap = fun _ => false) (hlog : p.log = [.opened b.tool])
    (hbefore : (b.ctrlMap = true → a.foundMap = true) → (b.ctrlMap = true → a.pin = 0) →
      (b.ctrlMap = true → 0 ≤ a.update) → a.attach = 0 →
      (b.ringBuffer = true → a.ringBuffer = true) → Succeeds b a) :
    Leaves b a (b.control a p) := by
  have hopen : Holds b p :=
    ⟨hskel, fun t ht => by simp [hmap] at ht, fun t ht => by simp [hlog] at ht⟩
  unfold Block.control
  by_cases hctrl : b.ctrlMap = true
  · rw [if_pos hctrl]
    unfold commonPinMap
    by_cases hfound : a.foundMap = true
    · have hself : ∀ t, Function.update p.ctrlMap b.tool true t = true → t = b.tool := by
        intro t ht
        by_contra hne
        rw [Function.update_of_ne hne, hmap] at ht
        cases ht
      by_cases hpin : a.pin = 0
      · have hheld : Holds b { p with
            ctrlMap := Function.update p.ctrlMap b.tool true
            log := p.log ++ [.unpinned b.tool] ++ [.pinned b.tool] } := by
          refine ⟨hskel, hself, fun t ht => ?_⟩
          simp only [hlog, List.cons_append, List.nil_append, List.mem_cons, reduceCtorEq,
            Effect.pinned.injEq, List.not_mem_nil, or_false, false_or] at ht
          exact ⟨ht, hctrl, Function.update_self _ _ _⟩
        by_cases hupdate : a.update < 0
        · simp only [hfound, hpin, hupdate, if_true, ne_eq, not_true, if_false, Int.lt_irrefl]
          exact .failed (fun h => absurd (h.update hctrl) (by omega)) hheld
        · simp only [hfound, hpin, hupdate, if_true, ne_eq, not_true, if_false, Int.lt_irrefl]
          exact Block.attach_leaves hheld (fun _ => ⟨_, rfl⟩)
            (hbefore (fun _ => hfound) (fun _ => hpin) fun _ => by omega)
      · simp only [hfound, hpin, if_true, ne_eq, not_false_iff, Int.neg_neg_iff_pos, Int.one_pos]
        refine .failed (fun h => hpin (h.pin hctrl)) ⟨hskel, hself, fun t ht => ?_⟩
        simp [hlog] at ht
    · simp only [hfound, Bool.false_eq_true, if_false, Int.neg_neg_iff_pos, Int.one_pos, if_true]
      exact .failed (fun h => hfound (h.foundMap hctrl)) hopen
  · rw [if_neg hctrl]
    exact Block.attach_leaves hopen (fun h => absurd h hctrl)
      (hbefore (fun h => absurd h hctrl) (fun h => absurd h hctrl) fun h => absurd h hctrl)

theorem Block.run_leaves (b : Block) (a : Answers) : Leaves b a (b.run a Proc.initial) := by
  unfold Block.run
  by_cases hopened : a.opened = true
  · rw [if_pos hopened]
    have hheld : Holds b { Proc.initial with
        skel := Function.update Proc.initial.skel b.tool true
        log := Proc.initial.log ++ [.opened b.tool] } :=
      ⟨rfl, nofun, fun t ht => by simp [Proc.initial] at ht⟩
    by_cases hload : a.load = 0
    · by_cases hperf : b.perfEvents = true ∧ a.perfEvents ≠ 0
      · simp only [hload, ne_eq, not_true, if_false]
        rw [if_pos hperf]
        exact .failed (fun h => hperf.2 (h.perfEvents hperf.1)) hheld
      · simp only [hload, ne_eq, not_true, if_false]
        rw [if_neg hperf]
        refine Block.control_leaves rfl rfl rfl fun hfound hpin hupdate hattach hring => ?_
        exact ⟨hopened, hload, fun h => not_not.mp fun hne => hperf ⟨h, hne⟩, hfound, hpin, hupdate,
          hattach, hring⟩
    · simp only [hload, ne_eq, not_false_iff, if_true]
      exact .failed (fun h => hload h.load) hheld
  · rw [if_neg hopened]
    exact .unopened fun h => hopened h.opened

/-- Every block jumps to the label that cleans up its own tool. -/
theorem label_run (h : env.block = some b) :
    ∃ frees, b.label.run = cleanup b.tool b.ctrlMap frees := by
  unfold Env.block at h
  split_ifs at h
  all_goals
    cases h
    exact ⟨_, rfl⟩

/-- What a block holds is cleaned up behind the label of its tool. -/
theorem Holds.cleaned (hp : Holds b p) (frees : Bool) (err : Int) :
    LeavesNothing (cleanup b.tool b.ctrlMap frees err p).1.log := by
  rw [cleanup_log]
  apply leavesNothing_append
  · intro t ht
    obtain ⟨rfl, hctrl, hmap⟩ := hp.pinned t ht
    have hskel : p.skel b.tool = true := by
      rw [hp.skel]
      exact Function.update_self _ _ _
    simp [hctrl, hmap, hskel]
  · intro t ht
    rw [List.mem_append] at ht
    split_ifs at ht <;> simp at ht

/-- The label of another tool does nothing for it. -/
theorem Holds.not_cleaned (hp : Holds b p) (h : t ≠ b.tool) (unpins frees : Bool) (err : Int) :
    (cleanup t unpins frees err p).1.log = p.log := by
  have hmap : ¬ (unpins = true ∧ p.ctrlMap t = true) := fun hu => h (hp.ctrlMap t hu.2)
  have hskel : ¬ p.skel t = true := by
    rw [hp.skel, Function.update_of_ne h]
    exact Bool.false_ne_true
  rw [cleanup_log, if_neg hmap, if_neg hskel, List.append_nil, List.append_nil]

theorem block_csDelay (h : env.block = some b) (ht : b.tool = .csDelay) : b = csDelayBlock := by
  unfold Env.block at h
  split_ifs at h
  all_goals
    cases h
    first
    | rfl
    | cases ht

theorem main_log_nil (h : a.argpParse ≠ 0 ∨ a.numPossibleCpus < 0 ∨ maxCpuNr < a.numPossibleCpus) :
    (main env a).1.log = [] := by
  unfold main
  by_cases hargp : a.argpParse = 0
  · rw [if_neg (not_not.mpr hargp), if_pos (h.resolve_left (not_not.mpr hargp))]
    rfl
  · rw [if_pos hargp]
    rfl

theorem main_started (h : ¬ (a.argpParse ≠ 0 ∨ a.numPossibleCpus < 0 ∨
      maxCpuNr < a.numPossibleCpus)) :
    main env a = match setUp env a Proc.initial with
      | (p, .returned code) => (p, code)
      | (p, .goto label err) => label.run err p
      | (p, .loop err) => Label.csDelayCleanup.run (mainLoop env a.rounds err) p := by
  obtain ⟨hargp, hcpus⟩ := not_or.mp h
  unfold main
  rw [if_neg hargp, if_neg hcpus]

/-- A tool that is ready is cleaned up behind the loop if it is `cs_delay`, or has nothing pinned. -/
theorem Holds.after_loop (hp : Holds b p) (hb : env.block = some b)
    (hpin : b.ctrlMap = true → ∃ before, p.log = before ++ [.pinned b.tool]) (err : Int) :
    LeavesNothing (Label.csDelayCleanup.run err p).1.log ↔
      ¬ (b.ctrlMap = true ∧ b.tool ≠ .csDelay) := by
  simp only [Label.run]
  by_cases htool : b.tool = .csDelay
  · have hblock := block_csDelay hb htool
    subst hblock
    exact iff_of_true (hp.cleaned true _) fun hall => hall.2 rfl
  · rw [hp.not_cleaned (Ne.symm htool)]
    by_cases hctrl : b.ctrlMap = true
    · obtain ⟨before, hlog⟩ := hpin hctrl
      refine iff_of_false (fun hleft => ?_) fun hnot => hnot ⟨hctrl, htool⟩
      -- nothing comes after the pin
      exact List.not_mem_nil (hleft b.tool before [] hlog).1
    · refine iff_of_true (leavesNothing_of_no_pin fun t ht => ?_) fun hall => hctrl hall.1
      exact hctrl (hp.pinned t ht).2.1

/-- There is one block to reach the loop from. -/
theorem exists_block_iff (hb : env.block = some b)
    (hstart : ¬ (a.argpParse ≠ 0 ∨ a.numPossibleCpus < 0 ∨ maxCpuNr < a.numPossibleCpus)) :
    (∃ b', env.block = some b' ∧ b'.ctrlMap = true ∧ b'.tool ≠ .csDelay ∧ EntersLoop b' a) ↔
      (b.ctrlMap = true ∧ b.tool ≠ .csDelay) ∧ Succeeds b a := by
  constructor
  · rintro ⟨b', hb', hctrl, htool, -, -, -, hall⟩
    cases hb.symm.trans hb'
    exact ⟨⟨hctrl, htool⟩, hall⟩
  · rintro ⟨⟨hctrl, htool⟩, hall⟩
    exact ⟨b, hb, hctrl, htool, by omega, by omega, by omega, hall⟩

/-- Nothing is left behind exactly unless a tool with a control map other than `cs_delay` reaches
the loop: the loop ends at the label of `cs_delay`, after any number of rounds. -/
theorem leavesNothing_iff (env : Env) (a : Answers) :
    LeavesNothing (main env a).1.log ↔
      ¬ ∃ b, env.block = some b ∧ b.ctrlMap = true ∧ b.tool ≠ .csDelay ∧ EntersLoop b a := by
  by_cases hstart : a.argpParse ≠ 0 ∨ a.numPossibleCpus < 0 ∨ maxCpuNr < a.numPossibleCpus
  · rw [main_log_nil hstart]
    refine iff_of_true (leavesNothing_of_no_pin fun t => List.not_mem_nil) ?_
    rintro ⟨b, -, -, -, hargp, hlow, hhigh, -⟩
    omega
  · rw [main_started hstart]
    cases hb : env.block with
    | none =>
      simp only [setUp, hb]
      refine iff_of_true (leavesNothing_of_no_pin fun t => ?_) (by simp)
      rw [Label.run, cleanup_log]
      simp [Proc.initial]
    | some b =>
      rw [← hb, exists_block_iff hb hstart]
      simp only [setUp, hb]
      have hleaves := b.run_leaves a
      generalize b.run a Proc.initial = r at hleaves
      cases hleaves with
      | unopened h =>
        exact iff_of_true (leavesNothing_of_no_pin fun t => List.not_mem_nil) fun hall => h hall.2
      | @failed p err h hp =>
        obtain ⟨frees, hlabel⟩ := label_run hb
        refine iff_of_true ?_ fun hall => h hall.2
        simp only [hlabel]
        exact hp.cleaned frees err
      | ready h hp hpin =>
        rw [and_iff_left h]
        exact hp.after_loop hb hpin _

/-- The option `-s`, and a kernel that refuses nothing. -/
def sarOnly : Env := ⟨true, false, false, false, false, false, false⟩

def granted (rounds : List Int) : Answers := ⟨0, 4, true, 0, 0, true, 0, 0, 0, true, rounds⟩

/-- After `SIGINT` the map of `sar` is still pinned. -/
theorem sar_left_pinned : ¬ ∀ (env : Env) (a : Answers), LeavesNothing (main env a).1.log := by
  intro h
  have hleft := h sarOnly (granted [0, 0])
  rw [leavesNothing_iff] at hleft
  apply hleft
  refine ⟨sarBlock, rfl, rfl, by decide, rfl, by decide, by decide, ?_⟩
  exact ⟨rfl, rfl, fun _ => rfl, fun _ => rfl, fun _ => rfl, fun _ => by decide, rfl, nofun⟩

end Blocks

end CpuSubsystem.CpuWatcher
