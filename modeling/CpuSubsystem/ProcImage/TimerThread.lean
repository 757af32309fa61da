import CpuSubsystem.Lib.Machine
import Mathlib.Logic.Function.Basic

/-!
# The timer thread of `eBPF_proc_image` (`proc_image.c`)

The main loop and the threads that it creates share `env.create_thread` and `env.exit_thread`; each
read or write of one of them is a step of its own.
-/

namespace CpuSubsystem.TimerThread

/-- What the main loop does next. -/
inductive MainPc where
  | readExit
  | clearExit
  | join
  | readCreate
  | create
  | rest
  | exited
deriving DecidableEq, Repr

/-- What a thread in `enable_function` does next. -/
inductive ThreadPc where
  | setCreate
  | sleep
  | clearCreate
  | setExit
  | finished
deriving DecidableEq, Repr

/-- A created thread, and how often it has been joined. -/
structure Thread where
  pc : ThreadPc
  joins : Nat
deriving DecidableEq, Repr

/-- `threads i` is the thread that was created as number `i`, for `i < created`. -/
structure State where
  createThread : Bool
  exitThread : Bool
  outputResourse : Bool
  outputSchedule : Bool
  threadEnable : Option Nat
  created : Nat
  threads : Nat → Thread
  main : MainPc

/-- A step of the main loop, a failure of `pthread_create`, the part of an iteration after the
threads (in which `print_resource` and `print_schedule` run to their ends or not), or a step of a
thread. -/
inductive Act where
  | main
  | createFails
  | rest (resource schedule : Bool)
  | thread (i : Nat)
deriving DecidableEq, Repr

section Steps

variable (enableResource enableSchedule : Bool) (s : State)

def State.setThread (i : Nat) (t : Thread) : State :=
  { s with threads := Function.update s.threads i t }

/-- The main loop waits in `pthread_join` until the thread is finished. A second join of the same
thread is undefined; it is counted. -/
def mainLoop : State :=
  match s.main with
  | .readExit =>
    if enableResource || enableSchedule then
      if s.exitThread then { s with main := .clearExit } else { s with main := .readCreate }
    else { s with main := .rest }
  | .clearExit => { s with exitThread := false, main := .join }
  | .join =>
    match s.threadEnable with
    | none => s
    | some i =>
      let t := s.threads i
      if t.pc = .finished then
        { s.setThread i { t with joins := t.joins + 1 } with main := .readCreate }
      else s
  | .readCreate => if s.createThread then { s with main := .rest } else { s with main := .create }
  | .create =>
    { s.setThread s.created ⟨.setCreate, 0⟩ with
      threadEnable := some s.created
      created := s.created + 1
      main := .rest }
  | .rest | .exited => s

/-- A failure ends the program. -/
def createFails : State :=
  match s.main with
  | .create => { s with main := .exited }
  | _ => s

def restOfLoop (resource schedule : Bool) : State :=
  match s.main with
  | .rest =>
    { s with
      outputResourse := s.outputResourse && !(enableResource && resource)
      outputSchedule := s.outputSchedule && !(enableSchedule && schedule)
      main := .readExit }
  | _ => s

def enableFunction (i : Nat) : State :=
  let t := s.threads i
  if s.main = .exited ∨ s.created ≤ i then s
  else
    match t.pc with
    | .setCreate => { s.setThread i { t with pc := .sleep } with createThread := true }
    | .sleep =>
      { s.setThread i { t with pc := .clearCreate } with
        outputResourse := s.outputResourse || enableResource
        outputSchedule := s.outputSchedule || enableSchedule }
    | .clearCreate => { s.setThread i { t with pc := .setExit } with createThread := false }
    | .setExit => { s.setThread i { t with pc := .finished } with exitThread := true }
    | .finished => s

def step (a : Act) : State × List Empty :=
  match a with
  | .main => (mainLoop enableResource enableSchedule s, [])
  | .createFails => (createFails s, [])
  | .rest resource schedule => (restOfLoop enableResource enableSchedule s resource schedule, [])
  | .thread i => (enableFunction enableResource enableSchedule s i, [])

end Steps

def initial : State where
  createThread := false
  exitThread := false
  outputResourse := false
  outputSchedule := false
  threadEnable := none
  created := 0
  threads := fun _ => ⟨.setCreate, 0⟩
  main := .readExit

def system (enableResource enableSchedule : Bool) : Machine State Act Empty where
  init := initial
  step := step enableResource enableSchedule

/-- The protocol holds in the state. -/
structure Right (s : State) : Prop where
  one_unfinished : ∀ i j, i < s.created → j < s.created → (s.threads i).pc ≠ .finished →
    (s.threads j).pc ≠ .finished → i = j
  joined_before : s.main = .create → ∀ i, i < s.created → (s.threads i).joins = 1
  joined_once : ∀ i, i < s.created → (s.threads i).joins ≤ 1
  join_current : s.main = .join → ∃ n, s.created = n + 1 ∧ s.threadEnable = some n ∧
    (s.threads n).joins = 0

/-- The thread that was created last; in the beginning it is as after a join. -/
def State.last (s : State) : Thread :=
  match s.created with
  | 0 => ⟨.finished, 1⟩
  | n + 1 => s.threads n

/-- `env.create_thread` is read after the last thread was joined, or between the two writes that the
thread makes to it. -/
def ReadsInTime (s : State) (a : Act) : Prop :=
  a = .main → s.main = .readCreate →
    s.last.joins = 1 ∨ s.last.pc = .sleep ∨ s.last.pc = .clearCreate

/-- How the flags and the main loop go with the last thread. -/
structure Phase (create exit : Bool) (main : MainPc) (last : Thread) : Prop where
  joins_le : last.joins ≤ 1
  create_flag : create = true ↔ last.pc = .sleep ∨ last.pc = .clearCreate
  joined : last.joins = 1 →
    last.pc = .finished ∧ exit = false ∧ main ≠ .clearExit ∧ main ≠ .join
  unjoined : last.joins = 0 →
    main ≠ .create ∧ (exit = true ↔ last.pc = .finished ∧ main ≠ .join)
  clearing : main = .clearExit → exit = true
  joining : main = .join → last.pc = .finished

/-- The main loop goes on, neither to a write nor to a call. -/
theorem Phase.goes_on {create exit : Bool} {main main' : MainPc} {last : Thread}
    (hp : Phase create exit main last) (hm : main ≠ .join)
    (hm' : main' = .readExit ∨ main' = .readCreate ∨ main' = .rest) :
    Phase create exit main' last where
  joins_le := hp.joins_le
  create_flag := hp.create_flag
  joined h1 := by
    obtain ⟨hpc, hexit, -⟩ := hp.joined h1
    rcases hm' with rfl | rfl | rfl <;> exact ⟨hpc, hexit, nofun, nofun⟩
  unjoined h0 := by
    have hexit := (hp.unjoined h0).2
    rcases hm' with rfl | rfl | rfl <;> exact ⟨nofun, hexit.trans (by simp [hm])⟩
  clearing h := by rcases hm' with rfl | rfl | rfl <;> cases h
  joining h := by rcases hm' with rfl | rfl | rfl <;> cases h

/-- Until a thread has finished, the main loop does not wait for it and creates no other. -/
theorem Phase.unfinished {create exit : Bool} {main : MainPc} {last : Thread}
    (hp : Phase create exit main last) (hpc : last.pc ≠ .finished) :
    last.joins = 0 ∧ exit = false ∧ main ≠ .create ∧ main ≠ .clearExit ∧ main ≠ .join := by
  have h1 : last.joins ≠ 1 := fun h1 => hpc (hp.joined h1).1
  have hle := hp.joins_le
  have h0 : last.joins = 0 := by omega
  obtain ⟨hmain, hexit⟩ := hp.unjoined h0
  have hdown : exit ≠ true := fun he => hpc (hexit.mp he).1
  exact ⟨h0, Bool.eq_false_iff.mpr hdown, hmain, fun hm => hdown (hp.clearing hm),
    fun hm => hpc (hp.joining hm)⟩

/-- The flags that a thread sets on its way, while the main loop neither waits nor creates. -/
theorem phase_of_pc {create exit : Bool} {main : MainPc} (pc : ThreadPc)
    (hcreate : create = true ↔ pc = .sleep ∨ pc = .clearCreate)
    (hexit : exit = true ↔ pc = .finished)
    (hmain : main ≠ .create ∧ main ≠ .clearExit ∧ main ≠ .join) :
    Phase create exit main ⟨pc, 0⟩ where
  joins_le := Nat.zero_le 1
  create_flag := hcreate
  joined h := nomatch h
  unjoined _ := ⟨hmain.1, hexit.trans (iff_self_and.mpr fun _ => hmain.2.2)⟩
  clearing hm := absurd hm hmain.2.1
  joining hm := absurd hm hmain.2.2

/-- All threads but the last one are finished and were joined once. -/
structure Inv (s : State) : Prop where
  old : ∀ i, i + 1 < s.created → s.threads i = ⟨.finished, 1⟩
  handle : ∀ n, s.created = n + 1 → s.threadEnable = some n
  phase : Phase s.createThread s.exitThread s.main s.last

theorem last_eq {s : State} {n : Nat} (h : s.created = n + 1) : s.last = s.threads n := by
  unfold State.last
  rw [h]

theorem inv_initial : Inv initial where
  old i h := absurd h (Nat.not_lt_zero _)
  handle n h := nomatch h
  phase := by constructor <;> simp [initial, State.last]

section Invariant

variable {enableResource enableSchedule : Bool} {s : State}

/-- A step that leaves the threads alone. -/
theorem Inv.of_flags (h : Inv s) {s' : State} (hcreated : s'.created = s.created)
    (hthreads : s'.threads = s.threads) (henable : s'.threadEnable = s.threadEnable)
    (hphase : Phase s'.createThread s'.exitThread s'.main s.last) : Inv s' where
  old := by
    rw [hcreated, hthreads]
    exact h.old
  handle := by
    rw [hcreated, henable]
    exact h.handle
  phase := by
    have hlast : s'.last = s.last := by
      unfold State.last
      rw [hcreated, hthreads]
    rw [hlast]
    exact hphase

/-- A step that changes the last thread. -/
theorem Inv.of_last (h : Inv s) {s' : State} {n : Nat} {t : Thread} (hn : s.created = n + 1)
    (hcreated : s'.created = s.created) (hthreads : s'.threads = Function.update s.threads n t)
    (henable : s'.threadEnable = s.threadEnable)
    (hphase : Phase s'.createThread s'.exitThread s'.main t) : Inv s' where
  old i hi := by
    rw [hcreated] at hi
    rw [hthreads, Function.update_of_ne (by omega)]
    exact h.old i hi
  handle := by
    rw [hcreated, henable]
    exact h.handle
  phase := by
    rw [last_eq (hcreated.trans hn), hthreads, Function.update_self]
    exact hphase

/-- Before a creation, every thread was joined. -/
theorem Inv.all_joined (h : Inv s) (hm : s.main = .create) (i : Nat) (hi : i < s.created) :
    s.threads i = ⟨.finished, 1⟩ := by
  by_cases hlt : i + 1 < s.created
  · exact h.old i hlt
  · have hn : s.created = i + 1 := by omega
    have hphase := h.phase
    rw [last_eq hn] at hphase
    have hjoins : (s.threads i).joins = 1 := by
      have h0 : (s.threads i).joins ≠ 0 := fun h0 => (hphase.unjoined h0).1 hm
      have hle := hphase.joins_le
      omega
    have hpc := (hphase.joined hjoins).1
    cases ht : s.threads i with
    | mk pc joins =>
      rw [ht] at hjoins hpc
      cases hjoins
      cases hpc
      rfl

theorem Inv.right (h : Inv s) : Right s where
  one_unfinished i j hi hj hpi hpj := by
    have hlast : ∀ k, k < s.created → (s.threads k).pc ≠ .finished → s.created = k + 1 := by
      intro k hk hpk
      by_contra hne
      exact hpk (by rw [h.old k (by omega)])
    have hi' := hlast i hi hpi
    have hj' := hlast j hj hpj
    omega
  joined_before hm i hi := by rw [h.all_joined hm i hi]
  joined_once i hi := by
    by_cases hlt : i + 1 < s.created
    · rw [h.old i hlt]
    · have hn : s.created = i + 1 := by omega
      rw [← last_eq hn]
      exact h.phase.joins_le
  join_current hm := by
    have hne : s.last.joins ≠ 1 := fun h1 => (h.phase.joined h1).2.2.2 hm
    have hle := h.phase.joins_le
    cases hn : s.created with
    | zero =>
      unfold State.last at hne
      rw [hn] at hne
      exact absurd rfl hne
    | succ n =>
      rw [last_eq hn] at hne hle
      exact ⟨n, rfl, h.handle n hn, by omega⟩

theorem readExit_inv (h : Inv s) (hm : s.main = .readExit) :
    Inv (mainLoop enableResource enableSchedule s) := by
  have hp := h.phase
  rw [hm] at hp
  simp only [mainLoop, hm]
  split_ifs with hon hexit
  · -- only the last thread has set the flag, and it has not been joined
    have h1 : s.last.joins ≠ 1 := fun h1 => absurd hexit (by rw [(hp.joined h1).2.1]; decide)
    refine h.of_flags rfl rfl rfl ⟨hp.joins_le, hp.create_flag, fun h => absurd h h1,
      fun h0 => ?_, fun _ => hexit, nofun⟩
    exact ⟨nofun, (hp.unjoined h0).2.trans (by simp)⟩
  · exact h.of_flags rfl rfl rfl (hp.goes_on nofun (.inr (.inl rfl)))
  · exact h.of_flags rfl rfl rfl (hp.goes_on nofun (.inr (.inr rfl)))

/-- The handle is that of the last thread, and that is the one which set the flag. -/
theorem join_inv (h : Inv s) (hm : s.main = .join) :
    Inv (mainLoop enableResource enableSchedule s) := by
  have hp := h.phase
  obtain ⟨n, hn, henable, h0⟩ := h.right.join_current hm
  rw [hm, last_eq hn] at hp
  have hfin : (s.threads n).pc = .finished := hp.joining rfl
  have hexit : s.exitThread = false := by
    cases he : s.exitThread with
    | false => rfl
    | true => exact absurd rfl ((hp.unjoined h0).2.mp he).2
  have hcreate : s.createThread = false := by
    rw [← Bool.not_eq_true, hp.create_flag, hfin]
    decide
  simp only [mainLoop, hm, henable, hfin, if_true, h0]
  refine h.of_last (t := ⟨.finished, 1⟩) hn rfl rfl rfl ?_
  change Phase s.createThread s.exitThread .readCreate _
  rw [hcreate, hexit]
  constructor <;> simp

theorem readCreate_inv (h : Inv s) (hread : ReadsInTime s .main) (hm : s.main = .readCreate) :
    Inv (mainLoop enableResource enableSchedule s) := by
  have hp := h.phase
  rw [hm] at hp
  simp only [mainLoop, hm]
  split_ifs with hcreate
  · exact h.of_flags rfl rfl rfl (hp.goes_on nofun (.inr (.inr rfl)))
  · -- the flag is down, so that the thread was joined before the read
    have h1 : s.last.joins = 1 := by
      rcases hread rfl hm with h1 | hpc | hpc
      · exact h1
      · exact absurd (hp.create_flag.mpr (.inl hpc)) hcreate
      · exact absurd (hp.create_flag.mpr (.inr hpc)) hcreate
    refine h.of_flags rfl rfl rfl ⟨hp.joins_le, hp.create_flag, fun _ => ?_, fun h0 => ?_,
      nofun, nofun⟩
    · exact ⟨(hp.joined h1).1, (hp.joined h1).2.1, nofun, nofun⟩
    · omega

/-- With all threads joined, the new one is the only one left to join. -/
theorem create_inv (h : Inv s) (hm : s.main = .create) :
    Inv (mainLoop enableResource enableSchedule s) := by
  have hp := h.phase
  have hall := h.all_joined hm
  have hjoined : s.last = ⟨.finished, 1⟩ := by
    cases hn : s.created with
    | zero =>
      unfold State.last
      rw [hn]
    | succ n => exact (last_eq hn).trans (hall n (by omega))
  rw [hm, hjoined] at hp
  have hcreate : s.createThread = false := by
    rw [← Bool.not_eq_true, hp.create_flag]
    decide
  have hexit : s.exitThread = false := (hp.joined rfl).2.1
  simp only [mainLoop, hm]
  refine ⟨fun i hi => ?_, fun n hn => ?_, ?_⟩
  · have hlt : i < s.created := by
      change i + 1 < s.created + 1 at hi
      omega
    change Function.update s.threads s.created _ i = _
    rw [Function.update_of_ne (by omega)]
    exact hall i hlt
  · cases hn
    rfl
  · rw [last_eq (n := s.created) rfl]
    change Phase s.createThread s.exitThread .rest (Function.update s.threads s.created _ _)
    rw [Function.update_self, hcreate, hexit]
    constructor <;> simp

theorem mainLoop_inv (h : Inv s) (hread : ReadsInTime s .main) :
    Inv (mainLoop enableResource enableSchedule s) := by
  have hp := h.phase
  cases hm : s.main with
  | readExit => exact readExit_inv h hm
  | clearExit =>
    rw [hm] at hp
    simp only [mainLoop, hm]
    have h1 : s.last.joins ≠ 1 := fun h1 => (hp.joined h1).2.2.1 rfl
    have hle := hp.joins_le
    have hfin := ((hp.unjoined (by omega)).2.mp (hp.clearing rfl)).1
    refine h.of_flags rfl rfl rfl ⟨hle, hp.create_flag, fun h => absurd h h1, fun _ => ?_,
      nofun, fun _ => hfin⟩
    exact ⟨nofun, by simp⟩
  | join => exact join_inv h hm
  | readCreate => exact readCreate_inv h hread hm
  | create => exact create_inv h hm
  | rest | exited =>
    simp only [mainLoop, hm]
    exact h

theorem createFails_inv (h : Inv s) : Inv (createFails s) := by
  have hp := h.phase
  unfold createFails
  split
  · rename_i hm
    rw [hm] at hp
    have h0 : s.last.joins ≠ 0 := fun h0 => (hp.unjoined h0).1 rfl
    have hle := hp.joins_le
    obtain ⟨hpc, hexit, -⟩ := hp.joined (by omega)
    exact h.of_flags rfl rfl rfl ⟨hle, hp.create_flag, fun _ => ⟨hpc, hexit, nofun, nofun⟩,
      fun h => absurd h h0, nofun, nofun⟩
  · exact h

theorem restOfLoop_inv (h : Inv s) (resource schedule : Bool) :
    Inv (restOfLoop enableResource enableSchedule s resource schedule) := by
  have hp := h.phase
  unfold restOfLoop
  split
  · rename_i hm
    rw [hm] at hp
    exact h.of_flags rfl rfl rfl (hp.goes_on nofun (.inl rfl))
  · exact h

/-- Only the last thread has steps left. -/
theorem enableFunction_inv (h : Inv s) (i : Nat) :
    Inv (enableFunction enableResource enableSchedule s i) := by
  have hp := h.phase
  by_cases hstop : s.main = .exited ∨ s.created ≤ i
  · unfold enableFunction
    rw [if_pos hstop]
    exact h
  · by_cases hlt : i + 1 < s.created
    · simp only [enableFunction, if_neg hstop, h.old i hlt]
      exact h
    · -- the place of the last thread tells which of the flags it has set
      have hn : s.created = i + 1 := by omega
      rw [last_eq hn] at hp
      have hflag := hp.create_flag
      cases hpc : (s.threads i).pc with
      | setCreate =>
        obtain ⟨h0, hexit, hmain⟩ := hp.unfinished (by rw [hpc]; decide)
        simp only [enableFunction, if_neg hstop, hpc, h0]
        exact h.of_last hn rfl rfl rfl (phase_of_pc .sleep (by simp)
          (by simp [State.setThread, hexit]) hmain)
      | sleep =>
        obtain ⟨h0, hexit, hmain⟩ := hp.unfinished (by rw [hpc]; decide)
        rw [hpc] at hflag
        simp only [enableFunction, if_neg hstop, hpc, h0]
        exact h.of_last hn rfl rfl rfl (phase_of_pc .clearCreate (hflag.trans (by simp))
          (by simp [State.setThread, hexit]) hmain)
      | clearCreate =>
        obtain ⟨h0, hexit, hmain⟩ := hp.unfinished (by rw [hpc]; decide)
        simp only [enableFunction, if_neg hstop, hpc, h0]
        exact h.of_last hn rfl rfl rfl (phase_of_pc .setExit (by simp)
          (by simp [State.setThread, hexit]) hmain)
      | setExit =>
        obtain ⟨h0, -, hmain⟩ := hp.unfinished (by rw [hpc]; decide)
        rw [hpc] at hflag
        simp only [enableFunction, if_neg hstop, hpc, h0]
        exact h.of_last hn rfl rfl rfl (phase_of_pc .finished (hflag.trans (by simp)) (by simp)
          hmain)
      | finished =>
        simp only [enableFunction, if_neg hstop, hpc]
        exact h

theorem step_inv (h : Inv s) {a : Act} (hread : ReadsInTime s a) :
    Inv (step enableResource enableSchedule s a).1 := by
  cases a with
  | main => exact mainLoop_inv h hread
  | createFails => exact createFails_inv h
  | rest resource schedule => exact restOfLoop_inv h resource schedule
  | thread i => exact enableFunction_inv h i

/-- A read that comes too early or too late lets the main loop create a thread before it has joined
the last one. -/
theorem not_right_of_read (h : Inv s) {a : Act} (hread : ¬ReadsInTime s a) :
    ¬Right (step enableResource enableSchedule s a).1 := by
  simp only [ReadsInTime, Classical.not_imp, not_or] at hread
  obtain ⟨rfl, hm, h1, hsleep, hclear⟩ := hread
  have hcreate : s.createThread = false := by
    rw [← Bool.not_eq_true, h.phase.create_flag]
    exact not_or.mpr ⟨hsleep, hclear⟩
  intro hr
  simp only [step, mainLoop, hm, hcreate, Bool.false_eq_true, if_false] at hr
  cases hn : s.created with
  | zero =>
    unfold State.last at h1
    rw [hn] at h1
    exact h1 rfl
  | succ n =>
    rw [last_eq hn] at h1
    exact h1 (hr.joined_before rfl n (hn ▸ Nat.lt_succ_self n))

end Invariant

/-- Over all interleavings: the protocol holds in every state of a run exactly if every read of
`env.create_thread` is in time. -/
theorem timerThreads_right_iff (enableResource enableSchedule : Bool) (tr : List Act) :
    (∀ pre, pre <+: tr → Right ((system enableResource enableSchedule).exec pre)) ↔
      Throughout (fun pre a => ReadsInTime ((system enableResource enableSchedule).exec pre) a)
        tr := by
  have hinv : ∀ pre, Throughout
      (fun pre a => ReadsInTime ((system enableResource enableSchedule).exec pre) a) pre →
      Inv ((system enableResource enableSchedule).exec pre) := fun pre h =>
    (system enableResource enableSchedule).invariant_of_steps inv_initial
      (fun s a hs hq => step_inv hs hq) h
  constructor
  · intro h
    rcases throughout_or_first tr with hall | ⟨pre, a, hp, hpre, hno⟩
    · exact hall
    · have hr := h (pre ++ [a]) hp
      rw [Machine.exec_snoc] at hr
      exact absurd hr (not_right_of_read (hinv pre hpre) hno)
  · intro h pre hp
    exact (hinv pre (h.restrict hp)).right

/-- The main loop goes round twice before the first thread takes a step. -/
theorem two_threads_unfinished :
    ¬Right ((system true false).exec
      [.main, .main, .main, .rest true true, .main, .main, .main]) := by
  intro h
  have heq := h.one_unfinished 0 1 (by decide) (by decide) (by decide) (by decide)
  cases heq

end CpuSubsystem.TimerThread
