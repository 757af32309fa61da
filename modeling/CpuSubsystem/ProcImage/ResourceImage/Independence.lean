import CpuSubsystem.Lib.Capacity
import CpuSubsystem.ProcImage.ResourceImage.Toggling

/-!
# What `next` owes to `prev`

The part about `prev` comes first.  It leaves `start` alone, so that the snapshot of `next` depends
on the room for its key only.
-/

namespace CpuSubsystem.ResourceImage

open ScheduleImage (ProcId procId)

section

variable (ignoreTgid : Int) (s : State)

/-- The key under which a task is switched in. -/
def Event.enters : Event → Option ProcId
  | .finishTaskSwitch _ next cpu _ _ _ _ => some (procId next.pid cpu)
  | .rscCtrl _ | .deleteTotal _ => none

/-- After the switch `start` holds the snapshot of `next` taken now, and it goes on to hold it until
a task is switched in under this key again. -/
def StartsAfresh (prev next : Task) (cpu : Int) (rss : RssStat) (off on : UInt64)
    (rooms : Rooms) : Prop :=
  ∀ later : List Event, (∀ e ∈ later, e.enters ≠ some (procId next.pid cpu)) →
    (later.foldl (step ignoreTgid)
      (finishTaskSwitch ignoreTgid s prev next cpu rss off on rooms)).start.lookup
        (procId next.pid cpu) = some ⟨on, next.rchar, next.wchar⟩

/-- Until then a switch-out finds no other snapshot. -/
def UsesNoOlder (prev next : Task) (cpu : Int) (rss : RssStat) (off on : UInt64)
    (rooms : Rooms) : Prop :=
  ∀ later : List Event, (∀ e ∈ later, e.enters ≠ some (procId next.pid cpu)) →
    ∀ begun, (later.foldl (step ignoreTgid)
      (finishTaskSwitch ignoreTgid s prev next cpu rss off on rooms)).start.lookup
        (procId next.pid cpu) = some begun → begun = ⟨on, next.rchar, next.wchar⟩

end

variable {ignoreTgid : Int} {s : State}

/-- The snapshot under a key is written only by a switch-in under that key. -/
theorem step_start {e : Event} {k : ProcId} (h : e.enters ≠ some k) :
    (step ignoreTgid s e).start.lookup k = s.start.lookup k := by
  cases e with
  | rscCtrl c => rfl
  | deleteTotal j => rfl
  | finishTaskSwitch prev next cpu rss off on rooms =>
    exact switch_start fun heq => h (congrArg some heq)

theorem steps_start {later : List Event} {k : ProcId} (h : ∀ e ∈ later, e.enters ≠ some k) :
    (later.foldl (step ignoreTgid) s).start.lookup k = s.start.lookup k := by
  induction later generalizing s with
  | nil => rfl
  | cons e later ih =>
    have he : (step ignoreTgid s e).start.lookup k = s.start.lookup k :=
      step_start (h e List.mem_cons_self)
    rw [List.foldl_cons, ih fun x hx => h x (List.mem_cons_of_mem e hx), he]

/-- Whatever `prev` is: `next` gets its snapshot if `start` has an element under its key or room for
one, and if not there is no snapshot that a switch-out could use. -/
theorem starts_afresh (ignoreTgid : Int) (s : State) (prev next : Task) (cpu : Int)
    (rss : RssStat) (off on : UInt64) (rooms : Rooms) (hact : s.rscCtrlMap.rscFunc = true)
    (hsel : selects ignoreTgid s.rscCtrlMap next.pid next.tgid cpu = true) :
    (s.start.accepts rooms.start (procId next.pid cpu) = true →
      StartsAfresh ignoreTgid s prev next cpu rss off on rooms) ∧
    UsesNoOlder ignoreTgid s prev next cpu rss off on rooms := by
  constructor
  · intro hacc later hlater
    rw [steps_start hlater, switch_next hact hsel, if_pos hacc]
  · intro later hlater begun hbegun
    rw [steps_start hlater, switch_next hact hsel] at hbegun
    -- a key that is refused has no element
    split at hbegun
    · exact (Option.some.inj hbegun).symm
    · cases hbegun

/-- Task 20 is a kernel thread. -/
def kworker : Task := ⟨20, 20, 0, 0⟩

def reader30 : Task := ⟨30, 30, 7, 9⟩

def kworkerRuns : State where
  rscCtrlMap := all
  start := (BpfMap.empty.store (procId 30 0) ⟨1, 2, 3⟩).store (procId 20 0) ⟨10, 0, 0⟩
  total := BpfMap.empty

/-- The kernel thread has no `mm`. -/
theorem starts_afresh_reader30 :
    StartsAfresh (-1) kworkerRuns kworker reader30 0 ⟨0, 0, 0, 0⟩ 50 51 ⟨false, true⟩ :=
  (starts_afresh (-1) kworkerRuns kworker reader30 0 ⟨0, 0, 0, 0⟩ 50 51 ⟨false, true⟩ rfl rfl).1
    (by decide)

/-- `start` with the snapshots of `n` tasks. -/
def filled : Nat → BpfMap ProcId StartRsc
  | 0 => BpfMap.empty
  | n + 1 => (filled n).store ⟨100 + n, 0⟩ ⟨1, 2, 3⟩

theorem filled_bounds {n : Nat} {k : ProcId} (h : ((filled n).lookup k).isSome = true) :
    100 ≤ k.pid ∧ k.pid < 100 + n := by
  induction n with
  | zero =>
    rw [filled, BpfMap.lookup_empty] at h
    cases h
  | succ n ih =>
    rw [filled, BpfMap.lookup_store] at h
    by_cases hk : k = ⟨100 + n, 0⟩
    · rw [hk]
      dsimp only
      omega
    · rw [if_neg hk] at h
      have hih := ih h
      omega

theorem card_filled (n : Nat) : (filled n).keys.card = n := by
  induction n with
  | zero => rfl
  | succ n ih =>
    have hnew : (⟨100 + n, 0⟩ : ProcId) ∉ (filled n).keys := by
      intro hmem
      have hbounds := filled_bounds (BpfMap.mem_keys.mp hmem)
      dsimp only at hbounds
      omega
    rw [filled, BpfMap.keys_store, Finset.card_insert_of_notMem hnew, ih]

/-- All 10240 elements are in use. -/
def crowded : State where
  rscCtrlMap := all
  start := filled 10240
  total := BpfMap.empty

/-- Task 30 is switched in, and there is no room for its snapshot. -/
theorem not_starts_afresh_crowded :
    crowded.rscCtrlMap.rscFunc = true ∧
      selects (-1) crowded.rscCtrlMap reader30.pid reader30.tgid 0 = true ∧
      crowded.start.keys.card = 10240 ∧
      ¬StartsAfresh (-1) crowded swapper reader30 0 ⟨0, 0, 0, 0⟩ 50 51 ⟨false, true⟩ := by
  refine ⟨rfl, rfl, card_filled 10240, fun h => ?_⟩
  have habsent : crowded.start.accepts false (procId 30 0) = false := by
    rw [BpfMap.accepts, Bool.false_or, Bool.eq_false_iff]
    intro hsome
    have hbounds : 100 ≤ (30 : Int) ∧ _ := filled_bounds hsome
    omega
  have hnow := h [] fun e he => by cases he
  rw [List.foldl_nil, switch_next rfl rfl] at hnow
  change (if crowded.start.accepts false (procId 30 0) then _ else _) = _ at hnow
  rw [habsent] at hnow
  cases hnow

end CpuSubsystem.ResourceImage
