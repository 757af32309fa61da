import CpuSubsystem.Lib.Latest
import CpuSubsystem.ProcImage.KeytimeImage.Probes

/-!
# Creations and their records

What returns from `fork`, `vfork` and the clone3 of `pthread_create`, where, and with which value,
against the records of types 4, 6 and 8.
-/

namespace CpuSubsystem.KeytimeImage

/-- A return that a probe sees, with the value returned, or the entry or the return of
`pthread_create`.  The real parent of a task that returns from `vfork` is known to the kernel. -/
inductive Return where
  | fork (cur : Task) (ret : Int) (mem : KeytimeEvent)
  | vfork (cur parent : Task) (ret : Int) (mem : KeytimeEvent)
  | pthreadEnter (cur : Task)
  | clone3 (cur : Task) (ret : Int) (mem : KeytimeEvent)
  | pthreadExit (cur : Task)

/-- A process or thread that was created, by whom, and the type of its record. -/
structure Created where
  type : Int
  child : Int
  parent : Task
deriving DecidableEq

namespace Return

/-- The probe runs with room in the maps and in the ring buffer. -/
def event : Return → Event
  | fork cur ret mem => .forkExit cur ret true (some mem)
  | vfork cur parent _ mem => .vforkExit cur parent true (some mem)
  | pthreadEnter cur => .pthreadCreateEnter cur true
  | clone3 cur ret mem => .sysExitClone3 cur ret true (some mem)
  | pthreadExit cur => .pthreadCreateExit cur

/-- The creation that a return says has happened: `fork` and clone3 return the child in the parent,
`vfork` returns 0 in the child. -/
def birth : Return → Option Created
  | fork cur ret _ => if 0 < ret then some ⟨4, ret, cur⟩ else none
  | vfork cur parent ret _ => if ret = 0 then some ⟨6, cur.pid, parent⟩ else none
  | clone3 cur ret _ => if 0 < ret then some ⟨8, ret, cur⟩ else none
  | pthreadEnter _ | pthreadExit _ => none

/-- The thread with pid `p` enters `pthread_create`, or leaves it. -/
def turn (p : Int) : Return → Option (Option Task)
  | pthreadEnter cur => if cur.pid = p then some (some cur) else none
  | pthreadExit cur => if cur.pid = p then some none else none
  | fork .. | vfork .. | clone3 .. => none

/-- A new thread is returned inside of `pthread_create`, and its pid is a `pid_t`. -/
def Orderly (pre : List Return) : Return → Prop
  | clone3 cur ret _ => toInt ret = ret ∧
      (0 < ret → latest (turn cur.pid) pre = some (some cur))
  | fork .. | vfork .. | pthreadEnter _ | pthreadExit _ => True

end Return

/-! ## Calls -/

/-- A call with its outcome, and the memory that is reserved in its probes.  `none` is a failure. -/
inductive Call where
  | fork (parent : Task) (child : Option Int) (mem mem' : KeytimeEvent)
  | vfork (parent grandparent : Task) (child : Option Int) (mem mem' : KeytimeEvent)
  | pthreadCreate (parent : Task) (thread : Option Int) (mem mem' : KeytimeEvent)

namespace Call

/-- The returns of a call, in the parent and, where the child shares its code, in the child. -/
def returns : Call → List Return
  | fork parent (some child) mem mem' =>
    [.fork parent child mem, .fork ⟨child, child⟩ 0 mem']
  | fork parent none mem _ => [.fork parent (-1) mem]
  | vfork parent grandparent (some child) mem mem' =>
    [.vfork ⟨child, child⟩ parent 0 mem, .vfork parent grandparent child mem']
  | vfork parent grandparent none mem _ => [.vfork parent grandparent (-1) mem]
  | pthreadCreate parent (some thread) mem mem' =>
    [.pthreadEnter parent, .clone3 parent thread mem, .clone3 ⟨thread, parent.tgid⟩ 0 mem',
      .pthreadExit parent]
  | pthreadCreate parent none mem _ =>
    [.pthreadEnter parent, .clone3 parent (-1) mem, .pthreadExit parent]

def birth : Call → Option Created
  | fork parent child _ _ => child.map fun pid => ⟨4, pid, parent⟩
  | vfork parent _ child _ _ => child.map fun pid => ⟨6, pid, parent⟩
  | pthreadCreate parent thread _ _ => thread.map fun pid => ⟨8, pid, parent⟩

/-- A new pid is positive and a `pid_t`. -/
def Proper : Call → Prop
  | fork _ child _ _ | vfork _ _ child _ _ | pthreadCreate _ child _ _ =>
    ∀ pid ∈ child, 0 < pid ∧ pid < 2 ^ 31

/-- The returns of a call tell of exactly one creation, or of none when it failed. -/
theorem births {call : Call} (h : call.Proper) :
    call.returns.filterMap Return.birth = call.birth.toList := by
  cases call with
  | fork parent child mem mem' =>
    cases child with
    | none => rfl
    | some pid => simp [returns, birth, Return.birth, (h pid rfl).1]
  | vfork parent grandparent child mem mem' =>
    cases child with
    | none => rfl
    | some pid =>
      have hne : pid ≠ 0 := ne_of_gt (h pid rfl).1
      simp [returns, birth, Return.birth, hne]
  | pthreadCreate parent thread mem mem' =>
    cases thread with
    | none => rfl
    | some pid =>
      have hpos : 0 < pid := (h pid rfl).1
      show List.filterMap Return.birth [.pthreadEnter parent, .clone3 parent pid mem,
        .clone3 ⟨pid, parent.tgid⟩ 0 mem', .pthreadExit parent] = [⟨8, pid, parent⟩]
      simp [List.filterMap_cons, Return.birth, hpos]

/-- Whatever came before, a whole call is in order. -/
theorem orderly {call : Call} (h : call.Proper) {tr : List Return}
    (htr : Throughout Return.Orderly tr) : Throughout Return.Orderly (tr ++ call.returns) := by
  cases call with
  | fork parent child mem mem' =>
    cases child with
    | none => exact htr.snoc trivial
    | some pid =>
      have hparent := htr.snoc (show Return.Orderly tr (.fork parent pid mem) from trivial)
      rw [returns, ← List.singleton_append, ← List.append_assoc]
      exact hparent.snoc trivial
  | vfork parent grandparent child mem mem' =>
    cases child with
    | none => exact htr.snoc trivial
    | some pid =>
      have hchild := htr.snoc
        (show Return.Orderly tr (.vfork ⟨pid, pid⟩ parent 0 mem) from trivial)
      rw [returns, ← List.singleton_append, ← List.append_assoc]
      exact hchild.snoc trivial
  | pthreadCreate parent thread mem mem' =>
    have henter := htr.snoc (show Return.Orderly tr (.pthreadEnter parent) from trivial)
    have hinside : latest (Return.turn parent.pid) (tr ++ [Return.pthreadEnter parent]) =
        some (some parent) := latest_snoc_some tr (if_pos rfl)
    cases thread with
    | none =>
      have hclone := henter.snoc
        (show Return.Orderly _ (.clone3 parent (-1) mem) from ⟨by decide, fun _ => hinside⟩)
      simpa [returns] using hclone.snoc (show Return.Orderly _ (.pthreadExit parent) from trivial)
    | some pid =>
      obtain ⟨hpos, hlt⟩ := h pid rfl
      have hclone := henter.snoc (show Return.Orderly _ (.clone3 parent pid mem) from
        ⟨toInt_eq_self (by omega) hlt, fun _ => hinside⟩)
      have hnew := hclone.snoc (show Return.Orderly _ (.clone3 ⟨pid, parent.tgid⟩ 0 mem') from
        ⟨by decide, fun h0 => absurd h0 (by decide)⟩)
      simpa [returns] using hnew.snoc (show Return.Orderly _ (.pthreadExit parent) from trivial)

/-- A sequence of calls is in order, and its creations are those of the calls. -/
theorem sequence {calls : List Call} (h : ∀ call ∈ calls, call.Proper) :
    Throughout Return.Orderly (calls.flatMap returns) ∧
      (calls.flatMap returns).filterMap Return.birth = calls.filterMap birth := by
  induction calls using List.reverseRecOn with
  | nil => exact ⟨throughout_nil, rfl⟩
  | append_singleton calls call ih =>
    obtain ⟨horder, hbirths⟩ := ih fun x hx => h x (List.mem_append_left _ hx)
    have hcall := h call (List.mem_append_right _ (List.mem_singleton_self call))
    rw [List.flatMap_append, List.flatMap_singleton]
    refine ⟨orderly hcall horder, ?_⟩
    rw [List.filterMap_append, List.filterMap_append, hbirths, births hcall]
    cases hb : call.birth <;> simp [hb]

end Call

section

variable (ro : Rodata) (c : KtCtrl)

/-- The program under a constant control, with what returns. -/
def returning : Machine State Return Record := (machine ro c).watching fun r => some r.event

/-- What a record about a creation says: its type, the child, the parent. -/
def Record.report : Record → Option (Int × UInt64 × Int × Int)
  | .keytime e => some (e.type, e.info₀, e.pid, e.tgid)
  | .offcpu _ => none

def Created.report (b : Created) : Int × UInt64 × Int × Int :=
  (b.type, UInt64.ofInt b.child, b.parent.pid, shownTgid c b.parent.tgid)

/-- The creation is by a selected parent. -/
def due (r : Return) : Option Created := r.birth.filter fun b => selected ro c b.parent

/-- The records so far are those of the creations by selected parents, one for each, in order. -/
def Corresponds (tr : List Return) : Prop :=
  ((returning ro c).emitted tr).filterMap Record.report =
    (tr.filterMap (due ro c)).map (Created.report c)

/-- The task is not the tool's own, or those are shown as well. -/
def shown (task : Task) : Bool := c.enableMyproc || task.tgid != ro.ignoreTgid

/-- The control asks for all tasks, or for this one. -/
def asked (task : Task) : Bool :=
  (c.targetPid == -1 && c.targetTgid == -1) || (c.targetPid != -1 && task.pid == c.targetPid)

/-- The control asks for the tasks of this process. -/
def askedGroup (task : Task) : Bool := c.targetTgid != -1 && task.tgid == c.targetTgid

/-- A selected parent returns from `fork` without an error.  The parent of a child that returns from
`vfork` is shown, if the control asks for its process; if the control asks for it otherwise, both are
shown or neither is.  For the real parent of any other task that returns from `vfork` the control
does not ask, except without its process where the task is not shown. -/
def Taken : Return → Prop
  | .fork cur ret _ => selected ro c cur = true → 0 ≤ ret
  | .vfork cur parent ret _ =>
    if ret = 0 then
      if askedGroup c parent = true then shown ro c parent = true
      else asked c parent = true → shown ro c cur = shown ro c parent
    else
      askedGroup c parent = false ∧ (shown ro c cur = true → asked c parent = false)
  | .pthreadEnter _ | .clone3 .. | .pthreadExit _ => True

end

variable {ro : Rodata} {c : KtCtrl} {tr pre : List Return} {r : Return}

theorem exec_returning (pre : List Return) (r : Return) :
    (returning ro c).exec (pre ++ [r]) = (step ro ((returning ro c).exec pre) r.event).1 := by
  rw [Machine.exec_snoc]
  rfl

theorem emitted_returning (pre : List Return) (r : Return) :
    (returning ro c).emitted (pre ++ [r]) =
      (returning ro c).emitted pre ++ (step ro ((returning ro c).exec pre) r.event).2 := by
  rw [Machine.emitted_snoc]
  rfl

theorem returning_ctrl : ((returning ro c).exec tr).ktCtrlMap = c := by
  induction tr using List.reverseRecOn with
  | nil => rfl
  | append_singleton pre r ih =>
    have hcontrol : r.event.control = none := by
      cases r <;> rfl
    rw [exec_returning, step_ctrl hcontrol, ih]

/-- The flag of a selected thread is set while it is inside of `pthread_create`. -/
theorem flag_of_turn {cur : Task} (hact : c.ktFunc = true) (hsel : selected ro c cur = true)
    (h : latest (Return.turn cur.pid) tr = some (some cur)) :
    ((returning ro c).exec tr).pthreadCreateEnable.lookup cur.pid = some true := by
  induction tr using List.reverseRecOn with
  | nil => cases h
  | append_singleton pre r ih =>
    have hctrl : ((returning ro c).exec pre).ktCtrlMap = c := returning_ctrl
    rw [exec_returning]
    generalize (returning ro c).exec pre = s at ih hctrl ⊢
    have hstay : r.turn cur.pid = none → (∀ task ∈ r.event.flagged, task.pid ≠ cur.pid) →
        (step ro s r.event).1.pthreadCreateEnable.lookup cur.pid = some true := by
      intro hturn hother
      rw [flag_other hother]
      apply ih
      rw [latest_snoc_none pre hturn] at h
      exact h
    have hquiet : r.turn cur.pid = none → r.event.flagged = none →
        (step ro s r.event).1.pthreadCreateEnable.lookup cur.pid = some true := by
      intro hturn hflagged
      apply hstay hturn
      rw [hflagged]
      intro task htask
      cases htask
    -- only the probes of `pthread_create` touch the flags, each that of its own thread
    cases r with
    | fork _ _ _ | vfork _ _ _ _ | clone3 _ _ _ => exact hquiet rfl rfl
    | pthreadEnter task =>
      by_cases hp : task.pid = cur.pid
      · rw [latest_snoc_some pre (if_pos hp)] at h
        cases h
        show (pthreadCreateEnter ro s cur true).pthreadCreateEnable.lookup cur.pid = some true
        have hrun : (s.ktCtrlMap.ktFunc && selected ro s.ktCtrlMap cur) = true := by
          rw [hctrl, hact, hsel]
          rfl
        rw [pthreadCreateEnter, if_pos hrun]
        show (s.pthreadCreateEnable.update true cur.pid true).lookup cur.pid = some true
        rw [BpfMap.update_true]
        exact BpfMap.lookup_store_self _ _ _
      · apply hstay (if_neg hp)
        intro x hx
        cases hx
        exact hp
    | pthreadExit task =>
      by_cases hp : task.pid = cur.pid
      · rw [latest_snoc_some pre (if_pos hp)] at h
        cases h
      · apply hstay (if_neg hp)
        intro x hx
        cases hx
        exact hp

/-- The call of `child_create` that a probe makes, as its record tells it. -/
def Creation.report (c : KtCtrl) (k : Creation) : Int × UInt64 × Int × Int :=
  (k.type, UInt64.ofInt k.childPid, k.ppid, shownTgid c k.ptgid)

theorem childCreate_report {s : State} {k : Creation} {mem : KeytimeEvent}
    (hctrl : s.ktCtrlMap = c) (hroom : k.room = true) (hslot : k.slot = some mem) :
    ((create s (some k)).2).filterMap Record.report = [k.report c] := by
  show ((childCreate s k.room k.slot k.type k.childPid k.ppid k.ptgid).2).filterMap _ = _
  rw [hroom, hslot, childCreate_accepted (BpfMap.accepts_true _ _), hctrl]
  simp only [Option.map_some, Option.toList_some, List.filterMap_cons, List.filterMap_nil,
    Record.report, fill_info, Creation.report]
  rfl

/-- With room everywhere the records are those of the calls. -/
theorem step_report {s : State} (hctrl : s.ktCtrlMap = c) (r : Return) :
    ((step ro s r.event).2).filterMap Record.report =
      ((creation ro s r.event).map (Creation.report c)).toList := by
  cases r with
  | pthreadEnter cur => rfl
  | pthreadExit cur => rfl
  | fork _ _ _ | vfork _ _ _ _ | clone3 _ _ _ =>
    rw [step_creates rfl]
    cases hk : creation ro s _ with
    | none => rfl
    | some k =>
      obtain ⟨-, hcall⟩ := Option.ite_none_right_eq_some.mp hk
      cases hcall
      exact childCreate_report hctrl rfl rfl

theorem due_ite {p : Prop} [Decidable p] {b : Created} (f : Created → Bool) :
    (if p then some b else none).filter f = if p ∧ f b = true then some b else none := by
  by_cases hp : p
  · by_cases hf : f b = true <;> simp [hp, hf, Option.filter]
  · simp [hp]

/-- A call and a creation that say the same are there together. -/
theorem report_ite {p q : Prop} [Decidable p] [Decidable q] {k : Creation} {b : Created}
    (h : k.report c = b.report c) :
    (if p then some k else none).map (Creation.report c) =
      (if q then some b else none).map (Created.report c) ↔ (p ↔ q) := by
  by_cases hp : p <;> by_cases hq : q <;> simp [hp, hq, h]

theorem selected_eq (cur : Task) :
    selected ro c cur = (shown ro c cur && (asked c cur || askedGroup c cur)) := by
  unfold selected shown asked askedGroup
  rw [Bool.and_comm (c.targetTgid == -1), Bool.or_right_comm]

theorem selectedVfork_eq (cur parent : Task) :
    selectedVfork ro c cur parent = ((shown ro c cur && asked c parent) || askedGroup c parent) :=
  rfl

/-- `vfork_exit` takes the task that returns for a child of its real parent exactly when it is one,
of a selected parent. -/
theorem taken_vfork_iff (cur parent : Task) (ret : Int) (mem : KeytimeEvent) :
    Taken ro c (.vfork cur parent ret mem) ↔
      (selectedVfork ro c cur parent = true ↔ ret = 0 ∧ selected ro c parent = true) := by
  rw [selected_eq, selectedVfork_eq]
  simp only [Taken]
  generalize shown ro c cur = child
  generalize shown ro c parent = par
  by_cases hret : ret = 0
  · rw [if_pos hret]
    cases asked c parent <;> cases askedGroup c parent <;> cases child <;> cases par <;> simp [hret]
  · rw [if_neg hret]
    cases asked c parent <;> cases askedGroup c parent <;> cases child <;> simp [hret]

/-- A return makes the record that is due, and no other. -/
theorem report_iff {s : State} (hctrl : s.ktCtrlMap = c) (hact : c.ktFunc = true)
    (horder : r.Orderly pre)
    (hflag : ∀ cur, selected ro c cur = true → latest (Return.turn cur.pid) pre = some (some cur) →
      s.pthreadCreateEnable.lookup cur.pid = some true) :
    (creation ro s r.event).map (Creation.report c) = (due ro c r).map (Created.report c) ↔
      Taken ro c r := by
  unfold due
  cases r with
  | pthreadEnter cur => simp [Return.event, creation, Return.birth, Taken]
  | pthreadExit cur => simp [Return.event, creation, Return.birth, Taken]
  | fork cur ret mem =>
    simp only [Return.event, creation, Return.birth, Taken]
    rw [due_ite, report_ite (by rfl), hctrl, hact]
    simp only [Bool.true_and, Bool.and_eq_true, bne_iff_ne]
    -- the probe tests `ret != 0`, and a child was created when `ret` is positive
    constructor
    · intro h hsel
      by_contra hneg
      have hpos := (h.mp ⟨hsel, by omega⟩).1
      omega
    · intro h
      constructor
      · rintro ⟨hsel, hne⟩
        have hge := h hsel
        exact ⟨by omega, hsel⟩
      · rintro ⟨hpos, hsel⟩
        exact ⟨hsel, by omega⟩
  | vfork cur parent ret mem =>
    simp only [Return.event, creation, Return.birth]
    rw [due_ite, report_ite (by rfl), hctrl, hact, Bool.true_and, taken_vfork_iff]
  | clone3 cur ret mem =>
    obtain ⟨hint, hinside⟩ := horder
    simp only [Return.event, creation, Return.birth, Taken, iff_true]
    rw [due_ite, report_ite (by rw [hint]; rfl), hctrl, hact, hint]
    simp only [Bool.true_and, Bool.and_eq_true, decide_eq_true_eq]
    -- a positive return value comes inside of `pthread_create`, where the flag is set
    constructor
    · rintro ⟨⟨hsel, -⟩, hpos⟩
      exact ⟨hpos, hsel⟩
    · rintro ⟨hpos, hsel⟩
      exact ⟨⟨hsel, hflag cur hsel (hinside hpos)⟩, hpos⟩

/-- The records correspond to the creations after every step of a run exactly when every return is
taken for what it is. -/
theorem creations_recorded (ro : Rodata) (c : KtCtrl) (tr : List Return) (hact : c.ktFunc = true)
    (horder : Throughout Return.Orderly tr) :
    Throughout (fun pre r => Corresponds ro c (pre ++ [r])) tr ↔
      Throughout (fun _ r => Taken ro c r) tr := by
  apply throughout_states
  · rfl
  · intro pre r hp hpre
    unfold Corresponds at hpre ⊢
    have hctrl : ((returning ro c).exec pre).ktCtrlMap = c := returning_ctrl
    rw [emitted_returning, List.filterMap_append, List.filterMap_append, List.map_append, hpre,
      List.append_cancel_left_eq, step_report hctrl,
      ← report_iff hctrl hact (horder pre r hp) fun cur hsel hturn => flag_of_turn hact hsel hturn]
    have hdue : [r].filterMap (due ro c) = (due ro c r).toList := by
      cases hd : due ro c r <;> simp [hd]
    rw [hdue]
    cases creation ro ((returning ro c).exec pre) r.event <;> cases due ro c r <;> simp

section Runs

instance (ro : Rodata) (c : KtCtrl) (r : Return) : Decidable (Taken ro c r) :=
  match r with
  | .fork .. => inferInstanceAs (Decidable (_ → _))
  | .vfork cur parent ret mem => decidable_of_iff _ (taken_vfork_iff cur parent ret mem).symm
  | .pthreadEnter _ | .clone3 .. | .pthreadExit _ => isTrue trivial

/-- Process 5 forks 6, and creates thread 7. -/
def familyCalls : List Call :=
  [.fork ⟨5, 5⟩ (some 6) .zero .zero, .pthreadCreate ⟨5, 5⟩ (some 7) .zero .zero]

theorem familyCalls_proper : ∀ call ∈ familyCalls, call.Proper := by
  intro call hcall
  simp only [familyCalls, List.mem_cons, List.not_mem_nil, or_false] at hcall
  rcases hcall with rfl | rfl <;>
  · intro pid hpid
    cases hpid
    decide

theorem creations_recorded_family :
    Throughout (fun pre r => Corresponds ⟨1, 20⟩ .all (pre ++ [r]))
      (familyCalls.flatMap Call.returns) :=
  (creations_recorded ⟨1, 20⟩ .all _ rfl (Call.sequence familyCalls_proper).1).mpr
    (by decide +kernel)

/-- The failure of a fork is recorded as the creation of the child -1. -/
theorem failed_fork_recorded :
    ((returning ⟨1, 20⟩ .all).emitted [.fork ⟨5, 5⟩ (-1) .zero]).filterMap Record.report =
        [(4, UInt64.ofInt (-1), 5, -1)] ∧
      ¬Corresponds ⟨1, 20⟩ .all [.fork ⟨5, 5⟩ (-1) .zero] := by
  refine ⟨by decide +kernel, fun h => ?_⟩
  unfold Corresponds at h
  revert h
  decide +kernel

end Runs

end CpuSubsystem.KeytimeImage
