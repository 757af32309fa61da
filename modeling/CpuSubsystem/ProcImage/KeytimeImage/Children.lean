import CpuSubsystem.Lib.Latest
import CpuSubsystem.Lib.Lifetimes
import CpuSubsystem.ProcImage.KeytimeImage.ChildRecords

/-!
# Children, and what the records should say of them

Children come to be and exit, under pids that are used again.  The creation of a child is recorded
by a probe of its parent (after vfork by one of its own), its exit by a probe of the child.  Nothing
orders the two.
-/

namespace CpuSubsystem.KeytimeImage

/-- A child comes to be, or something occurs. -/
inductive Life where
  | born (child : Nat) (byVfork : Bool)
  | occ (o : Occurrence)

namespace Life

def event : Life → Option Event
  | born .. => none
  | occ o => o.event

/-- The child that a creation is about. -/
def child : Life → Option Nat
  | occ (.probe _ made (.forkExit _ ret ..)) => if 0 < ret then some made else none
  | occ (.probe self _ (.vforkExit ..)) => some self
  | occ (.probe _ made (.sysExitClone3 _ ret ..)) => if 0 < toInt ret then some made else none
  | _ => none

/-- The pid that stands for it. -/
def childPid : Life → Option Int
  | occ (.probe _ _ (.forkExit _ ret ..)) => some ret
  | occ (.probe _ _ (.vforkExit cur ..)) => some cur.pid
  | occ (.probe _ _ (.sysExitClone3 _ ret ..)) => some (toInt ret)
  | _ => none

/-- The task that exits through exit or exit_group. -/
def exiter : Life → Option Nat
  | occ (.probe self _ (.sysEnterExitGroup ..)) => some self
  | occ (.probe self _ (.sysEnterExit ..)) => some self
  | _ => none

def birth : Life → Option Nat
  | born i _ => some i
  | occ _ => none

def death : Life → Option Nat
  | occ (.kill self) => some self
  | l => l.exiter

/-- A call of `pthread_create` by the task `i` begins or ends. -/
def turn (i : Nat) : Life → Option Bool
  | occ (.probe self _ (.pthreadCreateEnter ..)) => if self = i then some true else none
  | occ (.probe self _ (.pthreadCreateExit ..)) => if self = i then some false else none
  | _ => none

end Life

/-- Every new key and every record finds room. -/
def Event.served : Event → Bool
  | .forkExit _ _ room slot => room && slot.isSome
  | .vforkExit _ _ room slot => room && slot.isSome
  | .sysExitClone3 _ _ room slot => room && slot.isSome
  | .pthreadCreateEnter _ room => room
  | .sysEnterExitGroup _ _ slot slot' => slot.isSome && slot'.isSome
  | .sysEnterExit _ _ slot slot' => slot.isSome && slot'.isSome
  | _ => true

/-- The control, the tasks, and those of them that were there when the program was loaded. -/
structure Scene where
  ro : Rodata
  c : KtCtrl
  taskOf : Nat → Task
  start : Population Nat

namespace Scene

variable (x : Scene)

def lives : Lifetimes Life Nat Int where
  number i := (x.taskOf i).pid
  birth := Life.birth
  death := Life.death

def world (tr : List Life) : Population Nat := x.lives.population x.start tr

def lived : Machine State Life Record := (machine x.ro x.c).watching Life.event

/-- A probe fires in a living task and reads its identity; a call that made a child returns its
pid; a new process does not get the number of the tool, which is running. -/
def Fits (w : Population Nat) : Life → Prop
  | .born i byVfork => byVfork = true → (x.taskOf i).tgid ≠ x.ro.ignoreTgid
  | .occ (.kill _) => True
  | .occ (.probe self made e) =>
    self ∈ w.living ∧ (∀ cur ∈ e.cur, cur = x.taskOf self) ∧
      ∀ i ∈ (Life.occ (.probe self made e)).child,
        (Life.occ (.probe self made e)).childPid = some (x.taskOf i).pid

def Possible (pre : List Life) (l : Life) : Prop :=
  x.lives.Orderly (x.world pre) l ∧ x.Fits (x.world pre) l

/-- The image is active, with a constant control, and every update and reservation succeeds. -/
structure Lifelike (tr : List Life) : Prop where
  active : x.c.ktFunc = true
  positive : ∀ i, 0 < (x.taskOf i).pid
  sound : x.lives.Sound x.start
  constant : ∀ l ∈ tr, ∀ e ∈ l.event, e.control = none
  served : ∀ l ∈ tr, ∀ e ∈ l.event, e.served = true
  possible : Throughout x.Possible tr

/-! ## What the records should say -/

/-- What a step of the run emits about the child `i`. -/
def tell (i : Nat) (s : State) (l : Life) : List Record :=
  if l.child = some i then (x.lived.step s l).2
  else if l.exiter = some i then (x.lived.step s l).2.filter Record.isChildExit
  else []

/-- All records about the child `i`. -/
def story (i : Nat) (tr : List Life) : List Record :=
  x.lived.ghost [] (fun told s l => told ++ x.tell i s l) tr

/-- The probe of the creation of the child `i` by a selected parent: the return of fork or of a
clone3 inside of `pthread_create` in the parent, the return of vfork in the child. -/
def CreationProbe (i : Nat) (pre : List Life) : Life → Prop
  | .occ (.probe _ made (.forkExit cur ret ..)) =>
    made = i ∧ 0 < ret ∧ selected x.ro x.c cur = true
  | .occ (.probe self _ (.vforkExit _ parent ..)) =>
    self = i ∧ .born i true ∈ pre ∧ selected x.ro x.c parent = true
  | .occ (.probe self made (.sysExitClone3 cur ret ..)) =>
    made = i ∧ 0 < toInt ret ∧ selected x.ro x.c cur = true ∧
      latest (Life.turn self) pre = some true
  | _ => False

def Exited (i : Nat) (tr : List Life) : Prop := ∃ l ∈ tr, l.exiter = some i

/-- A child of a selected parent that exits leads to a create record and then to an exit record,
and no entry is left until the pid goes to somebody else. -/
def Complete (i : Nat) (tr : List Life) : Prop :=
  (∃ byVfork, .born i byVfork ∈ tr) →
    (∃ pre l, pre ++ [l] <+: tr ∧ x.CreationProbe i pre l) → Exited i tr →
      (∃ r r' : KeytimeEvent, x.story i tr = [.keytime r, .keytime r'] ∧
        (r.type = 4 ∨ r.type = 6 ∨ r.type = 8) ∧ r'.type = r.type + 1 ∧ r'.pid = r.pid ∧
        r'.tgid = r.tgid ∧ r.info₀ = UInt64.ofInt (x.taskOf i).pid ∧ r'.info₀ = r.info₀) ∧
      (latest (x.lives.bornAs (x.taskOf i).pid) tr = some i →
        (x.lived.exec tr).child.lookup (x.taskOf i).pid = none)

/-! ## When they do -/

/-- The child for which `child_create` is called. -/
def announced (s : State) (l : Life) : Option Nat :=
  if (l.event.bind (creation x.ro s)).isSome then l.child else none

/-- Those for which it was called so far. -/
def called (tr : List Life) : List Nat :=
  x.lived.ghost [] (fun g s l => g ++ (x.announced s l).toList) tr

/-- `child_create` is called for a task that has not exited yet, and only once. -/
def Timely (pre : List Life) (l : Life) : Prop :=
  ∀ i ∈ x.announced (x.lived.exec pre) l, i ∈ (x.world pre).living ∧ i ∉ x.called pre

variable {x : Scene} {s : State} {self made i j : Nat} {e : Event} {k : Creation}
  {tr pre : List Life} {l : Life}

theorem called_snoc : x.called (pre ++ [l]) =
    x.called pre ++ (x.announced (x.lived.exec pre) l).toList :=
  Machine.ghost_snoc _ _ _ _ _

theorem story_snoc : x.story i (pre ++ [l]) =
    x.story i pre ++ x.tell i (x.lived.exec pre) l :=
  Machine.ghost_snoc _ _ _ _ _

theorem world_snoc : x.world (pre ++ [l]) = x.lives.after (x.world pre) l :=
  Lifetimes.population_snoc

/-- A probe of a creation that does not get to `child_create` does nothing. -/
theorem creation_idle (hk : creation x.ro s e = none)
    (hchild : (Life.occ (.probe self made e)).child = some i) : step x.ro s e = (s, []) := by
  have hcreates : e.creates = true := by cases e <;> first | rfl | cases hchild
  rw [step_creates hcreates, hk]
  rfl

variable (self made) in
/-- Who `child_create` is called for, and that it succeeds. -/
theorem creation_served (hk : creation x.ro s e = some k) (hserved : e.served = true) :
    k.room = true ∧ k.slot.isSome = true ∧
      (∀ i, (Life.occ (.probe self made e)).child = some i →
        (Life.occ (.probe self made e)).childPid = some k.childPid) ∧
      ((Life.occ (.probe self made e)).child = none → k.childPid < 0) := by
  cases e with
  | forkExit cur ret room slot =>
    simp only [creation] at hk
    split at hk
    · rename_i hrun
      cases hk
      have hserved : room = true ∧ slot.isSome = true := by simpa [Event.served] using hserved
      refine ⟨hserved.1, hserved.2, fun _ _ => rfl, fun hnone => ?_⟩
      have hret : ret ≠ 0 := by
        simp only [Bool.and_eq_true, bne_iff_ne] at hrun
        exact hrun.2.2
      -- a negative return value is no pid of a child
      have hle : ¬0 < ret := by
        intro hpos
        rw [Life.child, if_pos hpos] at hnone
        cases hnone
      show ret < 0
      omega
    · cases hk
  | vforkExit cur parent room slot =>
    simp only [creation] at hk
    split at hk
    · cases hk
      have hserved : room = true ∧ slot.isSome = true := by simpa [Event.served] using hserved
      exact ⟨hserved.1, hserved.2, fun _ _ => rfl, fun hnone => by cases hnone⟩
    · cases hk
  | sysExitClone3 cur ret room slot =>
    simp only [creation] at hk
    split at hk
    · rename_i hrun
      cases hk
      have hserved : room = true ∧ slot.isSome = true := by simpa [Event.served] using hserved
      refine ⟨hserved.1, hserved.2, fun _ _ => rfl, fun hnone => ?_⟩
      simp only [Bool.and_eq_true, decide_eq_true_eq] at hrun
      rw [Life.child, if_pos hrun.2] at hnone
      cases hnone
    · cases hk
  | _ => cases hk

/-- Where the probes of creations have nothing to do with births and exits. -/
theorem creation_only (hk : creation x.ro s e = some k) :
    (Life.occ (.probe self made e)).exiter = none ∧
      (Life.occ (.probe self made e)).death = none ∧ e.flagged = none ∧ e.control = none := by
  cases e <;> first | exact ⟨rfl, rfl, rfl, rfl⟩ | cases hk

theorem child_exiter (h : l.exiter = some i) : l.child = none ∧ l.birth = none := by
  cases l with
  | born j byVfork => cases h
  | occ o =>
    cases o with
    | kill self => cases h
    | probe self made e => cases e <;> first | exact ⟨rfl, rfl⟩ | cases h

/-- An exit probe gets to `child_exit` and has memory for its record. -/
theorem exit_served {l : Life} (hf : s.ktCtrlMap.ktFunc = true) (h : l.exiter = some i)
    (hserved : ∀ e ∈ l.event, e.served = true) :
    ∃ made e cur mem, l = .occ (.probe i made e) ∧ e.cur = some cur ∧
      (x.lived.step s l).1 = (childExit s cur (some mem)).1 ∧
      (x.lived.step s l).2.filter Record.isChildExit =
        (childExit s cur (some mem)).2.filter Record.isChildExit := by
  have hprobe : ∀ (cur : Task) (code : UInt64) (slot slot' : Option KeytimeEvent),
      (slot.isSome && slot'.isSome) = true → ∃ mem,
        (exitProbe x.ro s cur slot slot' code).1 = (childExit s cur (some mem)).1 ∧
        (exitProbe x.ro s cur slot slot' code).2.filter Record.isChildExit =
          (childExit s cur (some mem)).2.filter Record.isChildExit := by
    intro cur code slot slot' hslots
    rw [Bool.and_eq_true] at hslots
    obtain ⟨mem, rfl⟩ := Option.isSome_iff_exists.mp hslots.1
    obtain ⟨mem', rfl⟩ := Option.isSome_iff_exists.mp hslots.2
    refine ⟨mem', ?_⟩
    unfold exitProbe
    dsimp only
    rw [if_pos hf]
    split
    · refine ⟨rfl, ?_⟩
      -- the record of type 3 is not about a child
      rw [List.filter_cons_of_neg]
      rw [isChildExit_fill]
      decide
    · exact ⟨rfl, rfl⟩
  cases l with
  | born j byVfork => cases h
  | occ o =>
    cases o with
    | kill self => cases h
    | probe self made e =>
      have hslots : e.served = true := hserved e rfl
      cases e with
      | sysEnterExitGroup cur code slot slot' =>
        cases h
        obtain ⟨mem, hstate, hout⟩ := hprobe cur code slot slot' hslots
        exact ⟨made, _, cur, mem, rfl, rfl, hstate, hout⟩
      | sysEnterExit cur code slot slot' =>
        cases h
        obtain ⟨mem, hstate, hout⟩ := hprobe cur code slot slot' hslots
        exact ⟨made, _, cur, mem, rfl, rfl, hstate, hout⟩
      | _ => cases h

/-! ## Along a run -/

namespace Lifelike

theorem restrict (h : x.Lifelike tr) (hp : pre <+: tr) : x.Lifelike pre where
  active := h.active
  positive := h.positive
  sound := h.sound
  constant l hl := h.constant l (hp.subset hl)
  served l hl := h.served l (hp.subset hl)
  possible := h.possible.restrict hp

theorem of_snoc (h : x.Lifelike (pre ++ [l])) : x.Lifelike pre :=
  h.restrict (List.prefix_append pre [l])

theorem last_mem (pre : List Life) (l : Life) : l ∈ pre ++ [l] :=
  List.mem_append_right pre (List.mem_singleton_self l)

theorem ctrl (h : x.Lifelike tr) : (x.lived.exec tr).ktCtrlMap = x.c := by
  induction tr using List.reverseRecOn with
  | nil => rfl
  | append_singleton pre l ih =>
    rw [Machine.exec_snoc]
    have hconst := h.constant l (last_mem pre l)
    have hpre := ih h.of_snoc
    cases l with
    | born i byVfork => exact hpre
    | occ o =>
      cases o with
      | kill self => exact hpre
      | probe self made e => exact (step_ctrl (hconst e rfl)).trans hpre

theorem orderly (h : x.Lifelike tr) :
    Throughout (fun pre l => x.lives.Orderly (x.world pre) l) tr :=
  fun pre l hp => (h.possible pre l hp).1

theorem soundWorld (h : x.Lifelike tr) : x.lives.Sound (x.world tr) :=
  h.sound.population h.orderly

/-- Who lives under the number of `i`, when `i` lives or is the latest one born under it. -/
theorem holder (h : x.Lifelike tr)
    (hi : i ∈ (x.world tr).living ∨ latest (x.lives.bornAs (x.taskOf i).pid) tr = some i)
    (hj : j ∈ (x.world tr).living) (heq : (x.taskOf j).pid = (x.taskOf i).pid) : j = i := by
  rcases hi with hi | hi
  · exact h.soundWorld.distinct j hj i hi heq
  · exact Lifetimes.heir h.orderly hi hj heq

end Lifelike

end Scene

end CpuSubsystem.KeytimeImage
