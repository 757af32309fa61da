import CpuSubsystem.ProcImage.ResourceImage.Reader

/-!
# What is in `total` and in the rows

The charges of the probe are numbered.  `total` holds the sum of those that were added since its
element was removed last, and a row is the sum of those that were there when it was looked up.
-/

namespace CpuSubsystem.ResourceImage

open ScheduleImage (ProcId procId)

section

variable (x : Setup)

def TotalRsc.usage (t : TotalRsc) : StartRsc where
  time := t.time
  readchar := t.readchar
  writechar := t.writechar

def gathered (l : List StartRsc) : StartRsc where
  time := (l.map StartRsc.time).sum
  readchar := (l.map StartRsc.readchar).sum
  writechar := (l.map StartRsc.writechar).sum

/-- The charges of `p` with their numbers: all of them, those in `total`, those that each row looked
up took, printed or not, and those that the first call removed.  `first` is set in the first call,
and `seen` when the element was looked up in this call. -/
structure Ledger where
  made : List (Nat × StartRsc)
  held : List (Nat × StartRsc)
  looks : List (List (Nat × StartRsc) × Bool)
  cleared : List (Nat × StartRsc)
  first : Bool
  seen : Bool

variable (p : ProcId)

def Ledger.charge (g : Ledger) (a : StartRsc) : Ledger :=
  { g with
    made := g.made ++ [(g.made.length, a)]
    held := g.held ++ [(g.made.length, a)] }

def Ledger.look (g : Ledger) (shown : Bool) : Ledger :=
  { g with looks := g.looks ++ [(g.held, shown)], seen := true }

def Ledger.remove (g : Ledger) : Ledger :=
  { g with
    held := []
    cleared := if g.first then g.cleared ++ g.held else g.cleared }

def Ledger.after (g : Ledger) (r : Reader) : Tick → Ledger
  | .kernel e =>
    match charging x r.kernel e with
    | some (k, a) => if k = p then g.charge a else g
    | none => g
  | .call _ =>
    match r.phase with
    | .idle =>
      if r.kernel.rscCtrlMap.rscFunc then { g with first := r.firstRsc, seen := false } else g
    | _ => g
  | .resume interval =>
    match r.phase with
    | .looking k =>
      if k = p then
        match r.kernel.total.lookup k with
        | some event => g.look (shown x interval event)
        | none => g
      else g
    | .removing k => if k = p then g.remove else g
    | _ => g

def ledger (c : RscCtrl) (tr : List Tick) : Ledger :=
  (reader x c).ghost ⟨[], [], [], [], false, false⟩ (Ledger.after x p) tr

/-- The rows of `p` that were printed. -/
def printed (c : RscCtrl) (tr : List Tick) : List StartRsc :=
  ((reader x c).emitted tr).filterMap fun row => if row.1 = p then some row.2.usage else none

/-- The amounts of numbered charges. -/
def amount (l : List (Nat × StartRsc)) : StartRsc := gathered (l.map Prod.snd)

/-- The control is constant and every update succeeds. -/
def Tick.Served : Tick → Prop
  | .kernel (.finishTaskSwitch _ _ _ _ _ _ rooms) => rooms = ⟨true, true⟩
  | .kernel (.rscCtrl _) | .kernel (.deleteTotal _) => False
  | .call _ | .resume _ => True

end

variable {x : Setup} {p : ProcId} {c : RscCtrl} {s : State} {r : Reader} {g : Ledger}

theorem usage_of_some {t : TotalRsc} (h : s.total.lookup p = some t) : usage s p = t.usage := by
  rw [usage, h]
  rfl

theorem usage_congr {s' : State} (h : s'.total.lookup p = s.total.lookup p) :
    usage s' p = usage s p := by
  rw [usage, h]
  rfl

theorem amount_snoc (l : List (Nat × StartRsc)) (i : Nat) (a : StartRsc) :
    amount (l ++ [(i, a)]) = ⟨(amount l).time + a.time, (amount l).readchar + a.readchar,
      (amount l).writechar + a.writechar⟩ := by
  simp only [amount, gathered, List.map_append, List.map_cons, List.map_nil, List.sum_append,
    List.sum_cons, List.sum_nil, add_zero]

/-- The keys are those of tasks. -/
theorem procId_ne_startKey (pid cpu : Int) : procId pid cpu ≠ startKey := by
  intro h
  have hpid : pid = -1 := congrArg ProcId.pid h
  have hcpu : (if pid = 0 then cpu else 0) = -1 := congrArg ProcId.cpuId h
  rw [if_neg (by omega)] at hcpu
  exact absurd hcpu (by decide)

/-- What the probe adds, and that it leaves the other elements alone. -/
theorem step_charging {k : ProcId} {a : StartRsc} {e : Event} (hserved : (Tick.kernel e).Served)
    (h : charging x s e = some (k, a)) :
    k ≠ startKey ∧ (∀ j, j ≠ k → (step x.ignoreTgid s e).total.lookup j = s.total.lookup j) ∧
      ((step x.ignoreTgid s e).total.lookup k).isSome = true ∧
      usage (step x.ignoreTgid s e) k = ⟨(usage s k).time + a.time,
        (usage s k).readchar + a.readchar, (usage s k).writechar + a.writechar⟩ := by
  cases e with
  | rscCtrl c' => cases h
  | deleteTotal j => cases h
  | finishTaskSwitch prev next cpu rss off on rooms =>
    obtain rfl : rooms = ⟨true, true⟩ := hserved
    simp only [charging, BpfMap.accepts_true, Bool.and_true] at h
    split at h
    · rename_i hrun
      obtain ⟨hact, hsel⟩ := Bool.and_eq_true_iff.mp hrun
      obtain ⟨begun, hb, hka⟩ := Option.map_eq_some_iff.mp h
      cases hka
      -- the part about `next` does not touch `total`
      have hstep : step x.ignoreTgid s (.finishTaskSwitch prev next cpu rss off on ⟨true, true⟩) =
          enter x.ignoreTgid (leave x.ignoreTgid s prev cpu rss off true) next cpu on true :=
        finishTaskSwitch_of_active hact
      have htotal := (enter_frame x.ignoreTgid (leave x.ignoreTgid s prev cpu rss off true)
        next cpu on true).2.1
      rw [hstep]
      refine ⟨procId_ne_startKey _ _, fun j hj => ?_, ?_, ?_⟩
      · rw [htotal, (leave_frame x.ignoreTgid s prev cpu rss off true).2.2 j hj]
      · rw [htotal]
        cases ht : s.total.lookup (procId prev.pid cpu) with
        | none => simp [leave_create hsel hb ht]
        | some t => simp [leave_add hsel hb ht]
      · rw [← usage_leave hsel hb]
        exact usage_congr (congrArg (fun m => BpfMap.lookup m _) htotal)
    · cases h

theorem step_not_charging {e : Event} (hserved : (Tick.kernel e).Served)
    (h : charging x s e = none) (j : ProcId) :
    (step x.ignoreTgid s e).total.lookup j = s.total.lookup j := by
  cases e with
  | rscCtrl c' => exact hserved.elim
  | deleteTotal k => exact hserved.elim
  | finishTaskSwitch prev next cpu rss off on rooms =>
    obtain rfl : rooms = ⟨true, true⟩ := hserved
    show (finishTaskSwitch x.ignoreTgid s prev next cpu rss off on ⟨true, true⟩).total.lookup j = _
    by_cases hact : s.rscCtrlMap.rscFunc = true
    · rw [finishTaskSwitch_of_active hact,
        (enter_frame x.ignoreTgid (leave x.ignoreTgid s prev cpu rss off true)
          next cpu on true).2.1]
      rcases leave_cases x.ignoreTgid s prev cpu rss off true with
        ⟨hl, -⟩ | ⟨begun, hsel, hb, -⟩
      · rw [hl]
      · simp [charging, hact, hsel, hb] at h
    · rw [finishTaskSwitch, if_neg hact]

/-! ## The invariant of all runs -/

/-- The phases of the first call, which jumps to the second pass. -/
def Phase.inSecond : Phase → Bool
  | .idle | .deleting _ | .removing _ => true
  | .reading _ | .looking _ => false

structure Inv (x : Setup) (p : ProcId) (g : Ledger) (r : Reader) (rows : List StartRsc) :
    Prop where
  sound : Walk.Sound x.bucket r.order
  keys : ∀ k, k ∈ r.order ↔ (r.kernel.total.lookup k).isSome = true
  start : startKey ∉ r.order
  present : ∀ k, r.phase = .looking k ∨ r.phase = .removing k → k ∈ r.order
  position : ∀ k, r.phase = .reading k → k = startKey ∨ k ∈ r.order
  first : g.first = true → r.phase.inSecond = true
  seen : r.phase = .reading p → p = startKey ∨ g.seen = true
  numbers : g.made.map Prod.fst = List.range g.made.length
  held : (g.cleared ++ g.held).Sublist g.made
  looks : ∀ l ∈ g.looks, l.1.Sublist g.made
  rows : rows = (g.looks.filter Prod.snd).map fun l => amount l.1
  total : usage r.kernel p = amount g.held
  absent : p ∉ r.order → g.held = []

variable {rows : List StartRsc}

theorem Inv.initial (x : Setup) (p : ProcId) (c : RscCtrl) :
    Inv x p ⟨[], [], [], [], false, false⟩ ⟨ResourceImage.initial c, [], true, .idle⟩ [] where
  sound := ⟨List.nodup_nil, List.Pairwise.nil⟩
  keys k := by
    show k ∈ ([] : List ProcId) ↔ ((BpfMap.empty : BpfMap ProcId TotalRsc).lookup k).isSome = true
    rw [BpfMap.lookup_empty]
    simp
  start := List.not_mem_nil
  present k hk := by rcases hk with hk | hk <;> cases hk
  position k hk := by cases hk
  first hf := absurd hf Bool.false_ne_true
  seen hp := by cases hp
  numbers := rfl
  held := List.Sublist.refl _
  looks l hl := by cases hl
  rows := rfl
  total := by
    simp only [usage, ResourceImage.initial, BpfMap.lookup_empty]
    rfl
  absent _ := rfl

/-- No element is taken outside of the second pass of the first call. -/
theorem Inv.not_first (h : Inv x p g r rows) {phase : Phase} (hphase : r.phase = phase)
    (hpass : phase.inSecond = false) : g.first = false := by
  cases hf : g.first with
  | false => rfl
  | true =>
    have hsecond := h.first hf
    rw [hphase, hpass] at hsecond
    cases hsecond

/-- What is charged is there to be met. -/
theorem Inv.mem_order (h : Inv x p g r rows) (hheld : g.held ≠ []) : p ∈ r.order :=
  Decidable.of_not_not fun habsent => hheld (h.absent habsent)

/-- A step that moves from one key to the next. -/
theorem Inv.move (h : Inv x p g r rows) {phase : Phase}
    (hpresent : ∀ k, phase = .looking k ∨ phase = .removing k → k ∈ r.order)
    (hposition : ∀ k, phase = .reading k → k = startKey ∨ k ∈ r.order)
    (hfirst : g.first = true → phase.inSecond = true)
    (hseen : phase = .reading p → p = startKey ∨ g.seen = true) :
    Inv x p g { r with phase := phase } rows :=
  ⟨h.sound, h.keys, h.start, hpresent, hposition, hfirst, hseen, h.numbers, h.held, h.looks,
    h.rows, h.total, h.absent⟩

/-- The probe adds to `p` or to another task. -/
theorem Inv.kernel (h : Inv x p g r rows) {e : Event} (hserved : (Tick.kernel e).Served) :
    Inv x p (g.after x p r (.kernel e)) (onKernel x r e) rows := by
  cases hch : charging x r.kernel e with
  | none =>
    have hsame := step_not_charging hserved hch
    have hr : onKernel x r e = { r with kernel := step x.ignoreTgid r.kernel e } := by
      simp only [onKernel, hch]
    have hg : g.after x p r (.kernel e) = g := by
      simp only [Ledger.after, hch]
    rw [hr, hg]
    refine ⟨h.sound, fun k => ?_, h.start, h.present, h.position, h.first, h.seen, h.numbers,
      h.held, h.looks, h.rows, (usage_congr (hsame p)).trans h.total, h.absent⟩
    rw [h.keys k]
    show _ ↔ ((step x.ignoreTgid r.kernel e).total.lookup k).isSome = true
    rw [hsame k]
  -- a charge may make an element, and the walk meets it or not
  | some q =>
    obtain ⟨k, a⟩ := q
    obtain ⟨hstart, hother, hsome, husage⟩ := step_charging hserved hch
    have hr : onKernel x r e = { r with
        kernel := step x.ignoreTgid r.kernel e
        order := Walk.write x.bucket r.order k } := by
      simp only [onKernel, hch]
    have hkeys : ∀ j, j ∈ Walk.write x.bucket r.order k ↔
        ((step x.ignoreTgid r.kernel e).total.lookup j).isSome = true := by
      intro j
      rw [Walk.mem_write]
      by_cases hj : j = k
      · rw [hj, hsome]
        simp
      · rw [hother j hj, ← h.keys j]
        simp [hj]
    have hstart' : startKey ∉ Walk.write x.bucket r.order k := by
      rw [Walk.mem_write]
      rintro (heq | hmem)
      · exact hstart heq.symm
      · exact h.start hmem
    have hpresent : ∀ j, r.phase = .looking j ∨ r.phase = .removing j →
        j ∈ Walk.write x.bucket r.order k :=
      fun j hj => Walk.mem_write.mpr (Or.inr (h.present j hj))
    have hposition : ∀ j, r.phase = .reading j →
        j = startKey ∨ j ∈ Walk.write x.bucket r.order k :=
      fun j hj => (h.position j hj).imp_right fun hmem => Walk.mem_write.mpr (Or.inr hmem)
    rw [hr]
    by_cases hk : k = p
    · subst hk
      have hg : g.after x k r (.kernel e) = g.charge a := by
        simp only [Ledger.after, hch, if_true]
      rw [hg]
      refine ⟨h.sound.write k, hkeys, hstart', hpresent, hposition, h.first, h.seen, ?_, ?_,
        fun l hl => ?_, h.rows, ?_, fun hp => absurd (Walk.mem_write.mpr (Or.inl rfl)) hp⟩
      · simp only [Ledger.charge, List.map_append, h.numbers, List.length_append, List.map_cons,
          List.map_nil, List.length_singleton, List.range_succ]
      · simp only [Ledger.charge]
        rw [← List.append_assoc]
        exact h.held.append (List.Sublist.refl _)
      · exact (h.looks l hl).trans (List.sublist_append_left _ _)
      · rw [husage, h.total]
        exact (amount_snoc g.held g.made.length a).symm
    · have hg : g.after x p r (.kernel e) = g := by
        simp only [Ledger.after, hch, if_neg hk]
      rw [hg]
      refine ⟨h.sound.write k, hkeys, hstart', hpresent, hposition, h.first, h.seen, h.numbers,
        h.held, h.looks, h.rows, (usage_congr (hother p (Ne.symm hk))).trans h.total, fun hp => ?_⟩
      exact h.absent fun hmem => hp (Walk.mem_write.mpr (Or.inr hmem))

/-- What a call does: it begins a pass, or nothing. -/
theorem call_cases (x : Setup) (p : ProcId) (g : Ledger) (r : Reader) (strayFd : Bool) :
    (call r strayFd = r ∧ g.after x p r (.call strayFd) = g) ∨
    (r.phase = .idle ∧
      g.after x p r (.call strayFd) = { g with first := r.firstRsc, seen := false } ∧
      ((r.firstRsc = true ∧ ∃ phase : Phase, (phase = .idle ∨ phase = .deleting startKey) ∧
          call r strayFd = { r with firstRsc := false, phase := phase }) ∨
        (r.firstRsc = false ∧ call r strayFd = { r with phase := .reading startKey }))) := by
  by_cases hidle : r.phase = .idle
  · by_cases hact : r.kernel.rscCtrlMap.rscFunc = true
    · right
      refine ⟨hidle, by simp only [Ledger.after, hidle, if_pos hact], ?_⟩
      have hcall : call r strayFd =
          if r.firstRsc then
            { r with firstRsc := false, phase := if strayFd then .deleting startKey else .idle }
          else { r with phase := .reading startKey } := by
        simp only [call, hidle, if_pos hact]
      rw [hcall]
      cases hfirst : r.firstRsc with
      | true =>
        -- with a stray descriptor there is nothing to remove
        cases strayFd with
        | true => exact Or.inl ⟨rfl, _, Or.inr rfl, rfl⟩
        | false => exact Or.inl ⟨rfl, _, Or.inl rfl, rfl⟩
      | false => exact Or.inr ⟨rfl, rfl⟩
    · left
      exact ⟨by simp only [call, hidle, if_neg hact],
        by simp only [Ledger.after, hidle, if_neg hact]⟩
  · left
    constructor
    · unfold call
      cases hphase : r.phase <;> first | rfl | exact absurd hphase hidle
    · unfold Ledger.after
      cases hphase : r.phase <;> first | rfl | exact absurd hphase hidle

theorem Inv.call (h : Inv x p g r rows) (strayFd : Bool) :
    Inv x p (g.after x p r (.call strayFd)) (call r strayFd) rows := by
  rcases call_cases x p g r strayFd with ⟨hr, hg⟩ | ⟨-, hg, ⟨-, phase, hphase, hr⟩ | ⟨hf, hr⟩⟩
  · rw [hr, hg]
    exact h
  · rw [hr, hg]
    refine ⟨h.sound, h.keys, h.start, fun k hk => ?_, fun k hk => ?_, fun _ => ?_, fun hp => ?_,
      h.numbers, h.held, h.looks, h.rows, h.total, h.absent⟩
    · rcases hphase with rfl | rfl <;> rcases hk with hk | hk <;> cases hk
    · rcases hphase with rfl | rfl <;> cases hk
    · rcases hphase with rfl | rfl <;> rfl
    · rcases hphase with rfl | rfl <;> cases hp
  · rw [hr, hg]
    refine ⟨h.sound, h.keys, h.start, fun k hk => ?_, fun k hk => ?_, fun hf' => ?_, fun hp => ?_,
      h.numbers, h.held, h.looks, h.rows, h.total, h.absent⟩
    · rcases hk with hk | hk <;> cases hk
    · cases hk
      exact Or.inl rfl
    · rw [hf] at hf'
      cases hf'
    · cases hp
      exact Or.inl rfl

/-! ## The map operations of `print_resource` -/

/-- What a row adds to those of `p`. -/
def rowsOf (p : ProcId) (out : List (ProcId × TotalRsc)) : List StartRsc :=
  out.filterMap fun row => if row.1 = p then some row.2.usage else none

section Resume

variable {k : ProcId} (interval : UInt64)

theorem resume_idle (h : r.phase = .idle) : resume x r interval = (r, []) := by
  simp only [resume, h]

theorem resume_reading (h : r.phase = .reading k) :
    resume x r interval = ({ r with
      phase := (Walk.next r.order k).elim (.deleting startKey) .looking }, []) := by
  unfold resume
  rw [h]
  dsimp only
  cases Walk.next r.order k <;> rfl

theorem resume_deleting (h : r.phase = .deleting k) :
    resume x r interval = ({ r with
      phase := (Walk.next r.order k).elim .idle .removing }, []) := by
  unfold resume
  rw [h]
  dsimp only
  cases Walk.next r.order k <;> rfl

/-- The look always finds the element, since nobody else removes any. -/
theorem Inv.resume_looking (hinv : Inv x p g r rows) (h : r.phase = .looking k) :
    ∃ event, r.kernel.total.lookup k = some event ∧
      resume x r interval = ({ r with phase := .reading k },
        if shown x interval event then [(k, event)] else []) := by
  have hpresent := (hinv.keys k).mp (hinv.present k (Or.inl h))
  obtain ⟨event, hevent⟩ := Option.isSome_iff_exists.mp hpresent
  refine ⟨event, hevent, ?_⟩
  simp only [resume, h, hevent]

theorem Inv.resume_removing (hinv : Inv x p g r rows) (h : r.phase = .removing k) :
    resume x r interval = ({ r with
      kernel := step x.ignoreTgid r.kernel (.deleteTotal k)
      order := Walk.erase r.order k
      phase := .deleting k }, []) := by
  have hpresent := (hinv.keys k).mp (hinv.present k (Or.inr h))
  simp only [resume, h, hpresent, if_true]

/-- What happens in the ledger at a map operation. -/
theorem after_resume_of_ne (hlook : r.phase ≠ .looking p) (hremove : r.phase ≠ .removing p) :
    g.after x p r (.resume interval) = g := by
  unfold Ledger.after
  cases hphase : r.phase with
  | idle => rfl
  | reading k => rfl
  | deleting k => rfl
  | looking k =>
    refine if_neg fun hk : k = p => hlook ?_
    rw [hphase, hk]
  | removing k =>
    refine if_neg fun hk : k = p => hremove ?_
    rw [hphase, hk]

theorem after_looking (h : r.phase = .looking p) {event : TotalRsc}
    (hevent : r.kernel.total.lookup p = some event) :
    g.after x p r (.resume interval) = g.look (shown x interval event) := by
  simp only [Ledger.after, h, hevent, if_true]

theorem after_removing (h : r.phase = .removing p) :
    g.after x p r (.resume interval) = g.remove := by
  simp only [Ledger.after, h, if_true]

theorem rowsOf_shown (event : TotalRsc) (shown : Bool) :
    rowsOf p (if shown then [(k, event)] else []) =
      if k = p ∧ shown = true then [event.usage] else [] := by
  cases shown with
  | false => simp [rowsOf]
  | true =>
    by_cases hk : k = p
    · simp [rowsOf, hk]
    · simp [rowsOf, hk]

end Resume

theorem Inv.looking (h : Inv x p g r rows) {k : ProcId} (hphase : r.phase = .looking k)
    (interval : UInt64) :
    Inv x p (g.after x p r (.resume interval)) (resume x r interval).1
      (rows ++ rowsOf p (resume x r interval).2) := by
  have hmem := h.present k (Or.inl hphase)
  have hfirst := h.not_first hphase rfl
  obtain ⟨event, hevent, hr⟩ := h.resume_looking interval hphase
  have hpresent : ∀ j, Phase.reading k = .looking j ∨ Phase.reading k = .removing j →
      j ∈ r.order := by
    rintro j (hj | hj) <;> cases hj
  have hposition : ∀ j, Phase.reading k = .reading j → j = startKey ∨ j ∈ r.order := by
    intro j hj
    cases hj
    exact Or.inr hmem
  rw [hr, rowsOf_shown]
  by_cases hk : k = p
  · subst hk
    rw [after_looking interval hphase hevent]
    refine ⟨h.sound, h.keys, h.start, hpresent, hposition, fun hf => ?_, fun _ => Or.inr rfl,
      h.numbers, h.held, fun l hl => ?_, ?_, h.total, h.absent⟩
    · exact absurd (hfirst.symm.trans hf) Bool.false_ne_true
    · rcases List.mem_append.mp hl with hl | hl
      · exact h.looks l hl
      · rw [List.mem_singleton.mp hl]
        exact (List.sublist_append_right _ _).trans h.held
    · have husage : event.usage = amount g.held := (usage_of_some hevent).symm.trans h.total
      rw [Ledger.look, List.filter_append, List.map_append, ← h.rows, husage]
      cases shown x interval event <;> simp
  · have hne : r.phase ≠ .looking p := fun heq => hk (Phase.looking.inj (hphase.symm.trans heq))
    have hnone : ¬(k = p ∧ shown x interval event = true) := fun hpos => hk hpos.1
    rw [after_resume_of_ne interval hne (by rw [hphase]; exact Phase.noConfusion), if_neg hnone,
      List.append_nil]
    refine h.move hpresent hposition (fun hf => ?_) fun hp => ?_
    · exact absurd (hfirst.symm.trans hf) Bool.false_ne_true
    · exact absurd (Phase.reading.inj hp) hk

theorem Inv.removing (h : Inv x p g r rows) {k : ProcId} (hphase : r.phase = .removing k)
    (interval : UInt64) :
    Inv x p (g.after x p r (.resume interval)) (resume x r interval).1 rows := by
  have hdelete : (step x.ignoreTgid r.kernel (.deleteTotal k)).total = r.kernel.total.delete k :=
    rfl
  have hkeys : ∀ j, j ∈ Walk.erase r.order k ↔
      ((step x.ignoreTgid r.kernel (.deleteTotal k)).total.lookup j).isSome = true := by
    intro j
    rw [Walk.mem_erase, hdelete, BpfMap.lookup_delete, h.keys j]
    by_cases hj : j = k
    · simp [hj]
    · simp [hj]
  have hstart : startKey ∉ Walk.erase r.order k := fun hmem => h.start (Walk.mem_erase.mp hmem).1
  have hpresent : ∀ j, Phase.deleting k = .looking j ∨ Phase.deleting k = .removing j →
      j ∈ Walk.erase r.order k := by
    rintro j (hj | hj) <;> cases hj
  have hposition : ∀ j, Phase.deleting k = .reading j → j = startKey ∨ j ∈ Walk.erase r.order k := by
    intro j hj
    cases hj
  rw [h.resume_removing interval hphase]
  by_cases hk : k = p
  · subst hk
    have hgone : usage (step x.ignoreTgid r.kernel (.deleteTotal k)) k = ⟨0, 0, 0⟩ := by
      rw [usage, hdelete, BpfMap.lookup_delete_self]
    rw [after_removing interval hphase]
    refine ⟨h.sound.erase k, hkeys, hstart, hpresent, hposition, fun _ => rfl,
      (fun hp => by cases hp), h.numbers, ?_, h.looks, h.rows, hgone, fun _ => rfl⟩
    simp only [Ledger.remove, List.append_nil]
    split
    · exact h.held
    · exact (List.sublist_append_left _ _).trans h.held
  · have hne : r.phase ≠ .removing p :=
      fun heq => hk (Phase.removing.inj (hphase.symm.trans heq))
    rw [after_resume_of_ne interval (by rw [hphase]; exact Phase.noConfusion) hne]
    refine ⟨h.sound.erase k, hkeys, hstart, hpresent, hposition, fun _ => rfl,
      (fun hp => by cases hp), h.numbers, h.held, h.looks, h.rows, ?_, fun hp => ?_⟩
    · rw [← h.total]
      exact usage_congr (BpfMap.lookup_delete_of_ne _ (Ne.symm hk))
    · exact h.absent fun hmem => hp (Walk.mem_erase.mpr ⟨hmem, Ne.symm hk⟩)

theorem Inv.resume (h : Inv x p g r rows) (interval : UInt64) :
    Inv x p (g.after x p r (.resume interval)) (resume x r interval).1
      (rows ++ rowsOf p (resume x r interval).2) := by
  cases hphase : r.phase with
  | idle =>
    rw [resume_idle interval hphase,
      after_resume_of_ne interval (by rw [hphase]; exact Phase.noConfusion)
        (by rw [hphase]; exact Phase.noConfusion), rowsOf, List.filterMap_nil, List.append_nil]
    exact h
  | reading k =>
    rw [resume_reading interval hphase,
      after_resume_of_ne interval (by rw [hphase]; exact Phase.noConfusion)
        (by rw [hphase]; exact Phase.noConfusion), rowsOf, List.filterMap_nil, List.append_nil]
    have hfirst := h.not_first hphase rfl
    cases hn : Walk.next r.order k with
    | none =>
      refine h.move (fun j hj => ?_) (fun j hj => ?_) (fun _ => rfl) fun hp => by cases hp
      · rcases hj with hj | hj <;> cases hj
      · cases hj
    | some n =>
      refine h.move (fun j hj => ?_) (fun j hj => ?_) (fun hf => ?_) fun hp => by cases hp
      · rcases hj with hj | hj
        · cases hj
          exact Walk.mem_of_next hn
        · cases hj
      · cases hj
      · rw [hfirst] at hf
        cases hf
  | looking k => exact h.looking hphase interval
  | deleting k =>
    rw [resume_deleting interval hphase,
      after_resume_of_ne interval (by rw [hphase]; exact Phase.noConfusion)
        (by rw [hphase]; exact Phase.noConfusion), rowsOf, List.filterMap_nil, List.append_nil]
    cases hn : Walk.next r.order k with
    | none =>
      refine h.move (fun j hj => ?_) (fun j hj => ?_) (fun _ => rfl) fun hp => by cases hp
      · rcases hj with hj | hj <;> cases hj
      · cases hj
    | some n =>
      refine h.move (fun j hj => ?_) (fun j hj => ?_) (fun _ => rfl) fun hp => by cases hp
      · rcases hj with hj | hj
        · cases hj
        · cases hj
          exact Walk.mem_of_next hn
      · cases hj
  | removing k =>
    have hquiet : (ResourceImage.resume x r interval).2 = [] := by
      rw [h.resume_removing interval hphase]
    rw [hquiet, rowsOf, List.filterMap_nil, List.append_nil]
    exact h.removing hphase interval

theorem printed_snoc (pre : List Tick) (t : Tick) :
    printed x p c (pre ++ [t]) = printed x p c pre ++ rowsOf p ((reader x c).emits pre t) := by
  rw [printed, Machine.emitted_snoc, List.filterMap_append]
  rfl

theorem ledger_snoc (pre : List Tick) (t : Tick) :
    ledger x p c (pre ++ [t]) =
      (ledger x p c pre).after x p ((reader x c).exec pre) t := by
  rw [ledger, Machine.ghost_snoc]
  rfl

theorem inv {tr : List Tick} (hserved : ∀ t ∈ tr, t.Served) :
    Inv x p (ledger x p c tr) ((reader x c).exec tr) (printed x p c tr) := by
  induction tr using List.reverseRecOn with
  | nil => exact Inv.initial x p c
  | append_singleton pre t ih =>
    have hpre := ih fun y hy => hserved y (List.mem_append_left [t] hy)
    have hlast := hserved t (List.mem_append_right pre (List.mem_singleton_self t))
    rw [ledger_snoc, Machine.exec_snoc, printed_snoc]
    cases t with
    | kernel e =>
      show Inv x p _ _ (printed x p c pre ++ [])
      rw [List.append_nil]
      exact hpre.kernel hlast
    | call strayFd =>
      show Inv x p _ _ (printed x p c pre ++ [])
      rw [List.append_nil]
      exact hpre.call strayFd
    | resume interval => exact hpre.resume interval

end CpuSubsystem.ResourceImage
