import CpuSubsystem.Lib.Latest
import CpuSubsystem.ProcImage.KeytimeImage.Probes

/-!
# Thread creation

`pthread_create_enable` links a clone3 call to the `pthread_create` around it.  Both probes that
keep the flag are gated by the control, so a return of `pthread_create` that is missed leaves the
flag set for every later clone3 of that thread.
-/

namespace CpuSubsystem.KeytimeImage

/-- A probe fires, or a thread calls clone3 or dies, which no probe sees.  A thread is known by its
pid until it dies. -/
inductive Moment where
  | probe (e : Event)
  | clone3 (pid : Int)
  | dies (pid : Int)

namespace Moment

def event : Moment → Option Event
  | probe e => some e
  | clone3 _ | dies _ => none

/-- The thread that makes the step. -/
def thread : Moment → Option Int
  | probe e => e.cur.map Task.pid
  | clone3 pid | dies pid => some pid

/-- A call of `pthread_create` by the thread `p` begins, or it is over. -/
def turn (p : Int) : Moment → Option Bool
  | probe (.pthreadCreateEnter cur _) => if cur.pid = p then some true else none
  | probe (.pthreadCreateExit cur) => if cur.pid = p then some false else none
  | dies pid => if pid = p then some false else none
  | _ => none

def isCall : Moment → Bool
  | clone3 _ => true
  | _ => false

/-- Whether a step of the thread `p` is a call of clone3. -/
def own (p : Int) (m : Moment) : Option Bool :=
  if m.thread = some p then some m.isCall else none

end Moment

variable (ro : Rodata) (c : KtCtrl)

def watched : Machine State Moment Record := (machine ro c).watching Moment.event

/-- The thread `p` is inside of `pthread_create`. -/
def Inside (p : Int) (tr : List Moment) : Prop := latest (Moment.turn p) tr = some true

/-- The latest step of the thread `p` is a clone3 call, made inside of `pthread_create`. -/
def CalledInside (p : Int) (tr : List Moment) : Prop :=
  ∃ pre post, tr = pre ++ .clone3 p :: post ∧ Inside p pre ∧ ∀ m ∈ post, m.thread ≠ some p

/-- A clone3 call that returns a new thread was made by the latest step of its thread, unless that
was before the program was loaded. -/
def InTurn (pre : List Moment) : Moment → Prop
  | .probe (.sysExitClone3 cur ret _ _) =>
    0 < toInt ret → latest (Moment.own cur.pid) pre ≠ some false
  | _ => True

/-- A clone3 return that leads to a record, which says that a thread was created. -/
def CreatedInside (pre : List Moment) : Moment → Prop
  | .probe (.sysExitClone3 cur ret room slot) =>
    ∀ r ∈ (watched ro c).emits pre (.probe (.sysExitClone3 cur ret room slot)),
      CalledInside cur.pid pre
  | _ => True

/-- A thread that leaves `pthread_create` with the flag set is selected then, so that the flag is
removed; and none dies with the flag set. -/
def FlagRemoved (s : State) : Moment → Prop
  | .probe (.pthreadCreateExit cur) =>
    s.pthreadCreateEnable.lookup cur.pid = some true →
      (s.ktCtrlMap.ktFunc && selected ro s.ktCtrlMap cur) = true
  | .dies pid => s.pthreadCreateEnable.lookup pid ≠ some true
  | _ => True

variable {ro c} {tr pre : List Moment} {m : Moment} {p : Int}

theorem turn_of_other {e : Event} (h : ∀ cur ∈ e.flagged, cur.pid ≠ p) :
    (Moment.probe e).turn p = none := by
  cases e with
  | pthreadCreateEnter cur room => exact if_neg (h cur rfl)
  | pthreadCreateExit cur => exact if_neg (h cur rfl)
  | _ => rfl

/-- What begins or ends `pthread_create` is a step of the thread, and no clone3 call. -/
theorem own_of_turn {b : Bool} (h : m.turn p = some b) : m.own p = some false := by
  have hown : m.thread = some p → m.isCall = false → m.own p = some false := by
    intro hthread hcall
    rw [Moment.own, if_pos hthread, hcall]
  cases m with
  | clone3 pid => cases h
  | dies pid =>
    by_cases hp : pid = p
    · exact hown (congrArg some hp) rfl
    · rw [Moment.turn, if_neg hp] at h
      cases h
  | probe e =>
    cases e with
    | pthreadCreateEnter cur room =>
      by_cases hp : cur.pid = p
      · exact hown (congrArg some hp) rfl
      · rw [Moment.turn, if_neg hp] at h
        cases h
    | pthreadCreateExit cur =>
      by_cases hp : cur.pid = p
      · exact hown (congrArg some hp) rfl
      · rw [Moment.turn, if_neg hp] at h
        cases h
    | _ => cases h

theorem turn_of_own (h : m.own p = none) : m.turn p = none := by
  cases hturn : m.turn p with
  | none => rfl
  | some b =>
    rw [own_of_turn hturn] at h
    cases h

theorem eq_clone3_of_own (h : m.own p = some true) : m = .clone3 p := by
  unfold Moment.own at h
  by_cases hthread : m.thread = some p
  · rw [if_pos hthread] at h
    cases m with
    | clone3 pid => rw [Option.some.inj hthread]
    | dies pid => cases h
    | probe e => cases h
  · rw [if_neg hthread] at h
    cases h

/-- Where the flag of `p` can be set after a probe: it was set by the entry of `pthread_create`, or
it stayed. -/
theorem flag_step {s : State} {e : Event}
    (h : (step ro s e).1.pthreadCreateEnable.lookup p = some true) :
    (Moment.probe e).turn p = some true ∨
      (s.pthreadCreateEnable.lookup p = some true ∧
        ((Moment.probe e).turn p = none ∨ ¬FlagRemoved ro s (.probe e))) := by
  by_cases hother : ∀ cur ∈ e.flagged, cur.pid ≠ p
  · rw [flag_other hother] at h
    exact Or.inr ⟨h, Or.inl (turn_of_other hother)⟩
  · have hown : ∃ cur, e.flagged = some cur ∧ cur.pid = p := by
      by_contra hne
      exact hother fun cur hcur hp => hne ⟨cur, hcur, hp⟩
    obtain ⟨cur, hcur, rfl⟩ := hown
    cases e with
    | pthreadCreateEnter cur' room =>
      cases hcur
      exact Or.inl (if_pos rfl)
    | pthreadCreateExit cur' =>
      cases hcur
      right
      change (pthreadCreateExit ro s cur).pthreadCreateEnable.lookup cur.pid = some true at h
      unfold pthreadCreateExit at h
      -- a selected thread removes its flag
      by_cases hsel : (s.ktCtrlMap.ktFunc && selected ro s.ktCtrlMap cur) = true
      · rw [if_pos hsel] at h
        change (s.pthreadCreateEnable.delete cur.pid).lookup cur.pid = some true at h
        rw [BpfMap.lookup_delete_self] at h
        cases h
      · rw [if_neg hsel] at h
        exact ⟨h, Or.inr fun hremoved => hsel (hremoved h)⟩
    | _ => cases hcur

/-- A set flag means that its thread is inside of `pthread_create`. -/
theorem flag_inside
    (h : Throughout (fun pre m => FlagRemoved ro ((watched ro c).exec pre) m) tr)
    (hflag : ((watched ro c).exec tr).pthreadCreateEnable.lookup p = some true) :
    Inside p tr := by
  induction tr using List.reverseRecOn with
  | nil => cases (BpfMap.lookup_empty p).symm.trans hflag
  | append_singleton pre m ih =>
    have hremoved : FlagRemoved ro ((watched ro c).exec pre) m := h.last
    rw [Machine.exec_snoc] at hflag
    have hstay : ((watched ro c).exec pre).pthreadCreateEnable.lookup p = some true →
        m.turn p = none → Inside p (pre ++ [m]) := by
      intro hbefore hturn
      rw [Inside, latest_snoc_none pre hturn]
      exact ih h.of_snoc hbefore
    cases m with
    | clone3 pid => exact hstay hflag rfl
    | dies pid =>
      by_cases hp : pid = p
      · exact absurd hflag (hp ▸ hremoved)
      · exact hstay hflag (by rw [Moment.turn, if_neg hp])
    | probe e =>
      rcases flag_step hflag with hset | ⟨hbefore, hturn | hkept⟩
      · exact latest_snoc_some pre hset
      · exact hstay hbefore hturn
      · exact absurd hremoved hkept

/-- What the two latest steps of a thread say about its call. -/
theorem calledInside_iff :
    CalledInside p tr ↔ Inside p tr ∧ latest (Moment.own p) tr = some true := by
  -- neither the call nor the steps of other threads begin or end `pthread_create`
  have hquiet : ∀ post : List Moment, (∀ m ∈ post, m.own p = none) →
      latest (Moment.turn p) (.clone3 p :: post) = none := by
    intro post hpost
    apply latest_eq_none.mpr
    intro x hx
    rcases List.mem_cons.mp hx with rfl | hx
    · rfl
    · exact turn_of_own (hpost x hx)
  constructor
  · rintro ⟨pre, post, rfl, hin, hpost⟩
    have hown : ∀ m ∈ post, m.own p = none := fun m hm => if_neg (hpost m hm)
    constructor
    · rw [Inside, latest_append, hquiet post hown, Option.none_or]
      exact hin
    · have hcall : (Moment.clone3 p).own p = some true := if_pos rfl
      have hsplit : pre ++ Moment.clone3 p :: post = (pre ++ [Moment.clone3 p]) ++ post := by simp
      rw [hsplit, latest_append, latest_eq_none.mpr hown, Option.none_or]
      exact latest_snoc_some pre hcall
  · rintro ⟨hin, hown⟩
    obtain ⟨pre, m, post, rfl, hcall, hpost⟩ := latest_eq_some hown
    rw [eq_clone3_of_own hcall] at hin ⊢
    refine ⟨pre, post, rfl, ?_, ?_⟩
    · rw [Inside, latest_append, hquiet post hpost, Option.none_or] at hin
      exact hin
    · intro x hx hthread
      have hx := hpost x hx
      rw [Moment.own, if_pos hthread] at hx
      cases hx

/-- A thread inside of `pthread_create` whose clone3 call returns made that call inside of it. -/
theorem Inside.called (hin : Inside p pre) (hown : latest (Moment.own p) pre ≠ some false) :
    CalledInside p pre := by
  apply calledInside_iff.mpr
  refine ⟨hin, ?_⟩
  obtain ⟨a, m, b, hpre, hturn, -⟩ := latest_eq_some hin
  cases hl : latest (Moment.own p) pre with
  | none =>
    have hm := latest_eq_none.mp hl m (by rw [hpre]; simp)
    rw [own_of_turn hturn] at hm
    cases hm
  | some call =>
    cases call with
    | true => rfl
    | false => exact absurd hl hown

/-- A record at a clone3 return was made under the flag. -/
theorem sysExitClone3_record {s : State} {cur : Task} {ret : Int} {room : Bool}
    {slot : Option KeytimeEvent} {r : Record} (h : r ∈ (sysExitClone3 ro s cur room slot ret).2) :
    s.pthreadCreateEnable.lookup cur.pid = some true ∧ 0 < toInt ret := by
  unfold sysExitClone3 at h
  dsimp only at h
  split at h
  · split at h
    · rename_i hflag
      split at h
      · cases h
      · rename_i hpos
        exact ⟨hflag, Int.not_le.mp hpos⟩
    · cases h
  · cases h

/-- In every run, whatever the controller writes, with any number of threads. -/
theorem threads_created_inside (ro : Rodata) (c : KtCtrl) (tr : List Moment)
    (hturn : Throughout InTurn tr)
    (h : Throughout (fun pre m => FlagRemoved ro ((watched ro c).exec pre) m) tr) :
    Throughout (CreatedInside ro c) tr := by
  intro pre m hp
  cases m with
  | clone3 pid => trivial
  | dies pid => trivial
  | probe e =>
    cases e with
    | sysExitClone3 cur ret room slot =>
      intro r hr
      obtain ⟨hflag, hpos⟩ := sysExitClone3_record hr
      apply Inside.called
      · exact flag_inside (h.restrict ((List.prefix_append pre _).trans hp)) hflag
      · exact hturn pre _ hp hpos
    | _ => trivial

section Runs

instance (s : State) (m : Moment) : Decidable (FlagRemoved ro s m) :=
  match m with
  | .probe (.pthreadCreateExit _) => inferInstanceAs (Decidable (_ → _))
  | .dies _ => inferInstanceAs (Decidable (_ ≠ _))
  | .clone3 _ | .probe (.ktCtrl _) | .probe (.sysEnterExecve ..) | .probe (.sysExitExecve ..)
  | .probe (.forkExit ..) | .probe (.vforkExit ..) | .probe (.pthreadCreateEnter ..)
  | .probe (.sysExitClone3 ..) | .probe (.sysEnterExitGroup ..) | .probe (.sysEnterExit ..)
  | .probe (.schedSwitch ..) => isTrue trivial

instance (pre : List Moment) (m : Moment) : Decidable (InTurn pre m) :=
  match m with
  | .probe (.sysExitClone3 ..) => inferInstanceAs (Decidable (_ → _))
  | .dies _ | .clone3 _ | .probe (.ktCtrl _) | .probe (.sysEnterExecve ..)
  | .probe (.sysExitExecve ..) | .probe (.forkExit ..) | .probe (.vforkExit ..)
  | .probe (.pthreadCreateEnter ..) | .probe (.pthreadCreateExit _)
  | .probe (.sysEnterExitGroup ..) | .probe (.sysEnterExit ..)
  | .probe (.schedSwitch ..) => isTrue trivial

/-- Thread 5 creates thread 6, then calls clone3 on its own; the control is off for a while. -/
def twoClones : List Moment :=
  [.probe (.pthreadCreateEnter ⟨5, 5⟩ true), .clone3 5,
    .probe (.sysExitClone3 ⟨5, 5⟩ 6 true (some .zero)), .probe (.pthreadCreateExit ⟨5, 5⟩),
    .probe (.ktCtrl { KtCtrl.all with ktFunc := false }), .probe (.ktCtrl .all), .clone3 5,
    .probe (.sysExitClone3 ⟨5, 5⟩ 7 true (some .zero))]

theorem threads_created_inside_twoClones : Throughout (CreatedInside ⟨1, 20⟩ .all) twoClones :=
  threads_created_inside ⟨1, 20⟩ .all twoClones (by decide +kernel) (by decide +kernel)

def lateReturn : Moment := .probe (.sysExitClone3 ⟨5, 5⟩ 7 true (some .zero))

/-- The control is off when thread 5 returns from `pthread_create`. -/
def missedReturn : List Moment :=
  [.probe (.pthreadCreateEnter ⟨5, 5⟩ true), .clone3 5,
    .probe (.sysExitClone3 ⟨5, 5⟩ 6 true (some .zero)),
    .probe (.ktCtrl { KtCtrl.all with ktFunc := false }), .probe (.pthreadCreateExit ⟨5, 5⟩),
    .probe (.ktCtrl .all), .clone3 5]

/-- Thread 5 starts a process by clone3, and it is reported as a thread. -/
theorem process_reported_as_thread :
    Throughout InTurn (missedReturn ++ [lateReturn]) ∧
      ¬Throughout (CreatedInside ⟨1, 20⟩ .all) (missedReturn ++ [lateReturn]) := by
  refine ⟨by decide +kernel, ?_⟩
  intro h
  have hmem : Record.keytime (KeytimeEvent.zero.fill 8 5 (-1) 7) ∈
      (watched ⟨1, 20⟩ .all).emits missedReturn lateReturn := List.mem_singleton_self _
  have hin := (calledInside_iff.mp (h.last _ hmem)).1
  have hout : latest (Moment.turn 5) missedReturn = some false := by decide
  cases hout.symm.trans hin

end Runs

end CpuSubsystem.KeytimeImage
