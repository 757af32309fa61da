import CpuSubsystem.ProcImage.ResourceImage.Accounting

/-!
# Switching the image on and off

The snapshot in `start` is never removed, and the probe is silent while the control is off.  A task
that is charged after such a gap is charged for the gap too, on a CPU or not.
-/

namespace CpuSubsystem.ResourceImage

open ScheduleImage (ProcId procId)

/-- What happens, with the time at which the controller writes. -/
inductive Moment where
  | rscCtrl (now : UInt64) (c : RscCtrl)
  | deleteTotal (k : ProcId)
  | finishTaskSwitch (prev next : Task) (cpu : Int) (rss : RssStat) (off on : UInt64)
      (rooms : Rooms)

def Moment.event : Moment → Event
  | rscCtrl _ c => .rscCtrl c
  | deleteTotal k => .deleteTotal k
  | finishTaskSwitch prev next cpu rss off on rooms =>
    .finishTaskSwitch prev next cpu rss off on rooms

def Moment.stamps : Moment → List UInt64
  | rscCtrl now _ => [now]
  | deleteTotal _ => []
  | finishTaskSwitch _ _ _ _ off on _ => [off, on]

/-- The clock does not go backwards. -/
def Forward (tr : List Moment) : Prop := (tr.flatMap Moment.stamps).Pairwise (· ≤ ·)

/-- The present stay of a task on a CPU: its time under a control that selects it, up to `last`;
and whether its snapshot was taken at its beginning and every control since selects it. -/
structure Stay where
  tgid : Int
  cpu : Int
  since : UInt64
  last : UInt64
  selected : Nat
  sure : Bool

/-- The selected time of a task on a CPU since its element of `total` was made, counted from the
beginning of the stay at whose end it was made. -/
structure Timesheet where
  past : Nat
  stay : Option Stay

section

variable (ignoreTgid : Int) (p : ProcId)

/-- The image is active and selects the task of the stay. -/
def picks (c : RscCtrl) (st : Stay) : Bool :=
  c.rscFunc && selects ignoreTgid c p.pid st.tgid st.cpu

/-- Counts the time up to `now` under the control value `c`. -/
def Stay.count (c : RscCtrl) (st : Stay) (now : UInt64) : Stay :=
  { st with
    last := now
    selected := st.selected + if picks ignoreTgid p c st then now.toNat - st.last.toNat else 0 }

def Timesheet.selected (g : Timesheet) : Nat :=
  g.past + match g.stay with
    | some st => st.selected
    | none => 0

def Timesheet.sure (g : Timesheet) : Bool := g.stay.any Stay.sure

/-- The stay is over; without an element of `total` nothing is to be counted. -/
def Timesheet.close (g : Timesheet) (c : RscCtrl) (off : UInt64) (made : Bool) : Timesheet where
  past := if made then
      Timesheet.selected { g with stay := g.stay.map fun st => st.count ignoreTgid p c off }
    else 0
  stay := none

/-- The probe takes a snapshot of `next`, and `start` has room. -/
def snapshots (s : State) (next : Task) (cpu : Int) (rooms : Rooms) : Bool :=
  s.rscCtrlMap.rscFunc && selects ignoreTgid s.rscCtrlMap next.pid next.tgid cpu &&
    s.start.accepts rooms.start (procId next.pid cpu)

def Timesheet.after (g : Timesheet) (s : State) : Moment → Timesheet
  | .rscCtrl now c =>
    { g with
      stay := g.stay.map fun st =>
        { st.count ignoreTgid p s.rscCtrlMap now with sure := st.sure && picks ignoreTgid p c st } }
  | .deleteTotal k => if k = p then { g with past := 0 } else g
  | .finishTaskSwitch prev next cpu rss off on rooms =>
    let s' := finishTaskSwitch ignoreTgid s prev next cpu rss off on rooms
    let made := (s'.total.lookup p).isSome
    let g' := if procId prev.pid cpu = p then g.close ignoreTgid p s.rscCtrlMap off made else g
    if procId next.pid cpu = p then
      { g' with
        stay := some ⟨next.tgid, cpu, on, on, 0, snapshots ignoreTgid s next cpu rooms⟩ }
    else g'

def timed (c : RscCtrl) : Machine State Moment Empty :=
  (machine ignoreTgid c).watching fun m => some m.event

def timesheet (c : RscCtrl) (tr : List Moment) : Timesheet :=
  (timed ignoreTgid c).ghost ⟨0, none⟩ (Timesheet.after ignoreTgid p) tr

/-- A task has no more time in `total` than it spent on a CPU while it was selected. -/
def Bounded (c : RscCtrl) (tr : List Moment) : Prop :=
  ∀ t, ((timed ignoreTgid c).exec tr).total.lookup p = some t →
    t.time.toNat ≤ (timesheet ignoreTgid p c tr).selected

/-- The probe charges `p` only for a stay whose snapshot was taken at its beginning and that was
selected throughout. -/
def ChargedSure (g : Timesheet) (s : State) : Moment → Prop
  | .finishTaskSwitch prev _ cpu _ _ _ _ =>
    procId prev.pid cpu = p → s.rscCtrlMap.rscFunc = true →
      selects ignoreTgid s.rscCtrlMap prev.pid prev.tgid cpu = true →
        (s.start.lookup p).isSome = true → g.sure = true
  | .rscCtrl .. | .deleteTotal _ => True

end

variable {ignoreTgid : Int} {p : ProcId} {s : State} {g : Timesheet} {c : RscCtrl}
  {pre tr : List Moment}

/-! ## What a switch does -/

section Switch

variable {prev next : Task} {cpu : Int} {rss : RssStat} {off on : UInt64} {rooms : Rooms}

/-- What the part about `prev` leaves in `total` was there before, or it charged the task. -/
theorem leave_total {t : TotalRsc}
    (ht : (leave ignoreTgid s prev cpu rss off rooms.total).total.lookup p = some t) :
    s.total.lookup p = some t ∨
      (procId prev.pid cpu = p ∧
        selects ignoreTgid s.rscCtrlMap prev.pid prev.tgid cpu = true ∧
        ∃ begun, s.start.lookup p = some begun ∧
          t.time = (usage s p).time + (off - begun.time)) := by
  by_cases hp : procId prev.pid cpu = p
  · subst hp
    rcases leave_cases ignoreTgid s prev cpu rss off rooms.total with
      ⟨h, -⟩ | ⟨begun, hsel, hb, ⟨hold, h⟩ | ⟨t₀, hold, h⟩⟩
    · rw [h] at ht
      exact Or.inl ht
    · right
      refine ⟨rfl, hsel, begun, hb, ?_⟩
      simp only [h, BpfMap.lookup_update_self] at ht
      split at ht
      · cases ht
        simp only [usage, hold, TotalRsc.create, zero_add]
      · cases ht
    · right
      refine ⟨rfl, hsel, begun, hb, ?_⟩
      simp only [h, BpfMap.lookup_store_self] at ht
      cases ht
      simp only [usage, hold, TotalRsc.add]
  · rw [(leave_frame ignoreTgid s prev cpu rss off rooms.total).2.2 p (Ne.symm hp)] at ht
    exact Or.inl ht

/-- What `total` holds after a switch was there before, or a charge made it. -/
theorem switch_total {t : TotalRsc}
    (ht : (finishTaskSwitch ignoreTgid s prev next cpu rss off on rooms).total.lookup p = some t) :
    s.total.lookup p = some t ∨
      (procId prev.pid cpu = p ∧ s.rscCtrlMap.rscFunc = true ∧
        selects ignoreTgid s.rscCtrlMap prev.pid prev.tgid cpu = true ∧
        ∃ begun, s.start.lookup p = some begun ∧
          t.time = (usage s p).time + (off - begun.time)) := by
  by_cases hact : s.rscCtrlMap.rscFunc = true
  · rw [finishTaskSwitch_of_active hact, (enter_frame ignoreTgid _ next cpu on _).2.1] at ht
    rcases leave_total ht with hold | ⟨hp, hsel, hcharge⟩
    · exact Or.inl hold
    · exact Or.inr ⟨hp, hact, hsel, hcharge⟩
  · rw [finishTaskSwitch, if_neg hact] at ht
    exact Or.inl ht

theorem switch_start (hp : procId next.pid cpu ≠ p) :
    (finishTaskSwitch ignoreTgid s prev next cpu rss off on rooms).start.lookup p =
      s.start.lookup p := by
  unfold finishTaskSwitch
  split
  · rw [(enter_frame ignoreTgid _ next cpu on _).2.2 p (Ne.symm hp),
      (leave_frame ignoreTgid s prev cpu rss off rooms.total).2.1]
  · rfl

theorem switch_ctrl : (finishTaskSwitch ignoreTgid s prev next cpu rss off on rooms).rscCtrlMap =
    s.rscCtrlMap := by
  unfold finishTaskSwitch
  split
  · rw [(enter_frame ignoreTgid _ next cpu on _).1,
      (leave_frame ignoreTgid s prev cpu rss off rooms.total).1]
  · rfl

/-- What is under the key of a selected `next` after the probe. -/
theorem switch_next (hact : s.rscCtrlMap.rscFunc = true)
    (hsel : selects ignoreTgid s.rscCtrlMap next.pid next.tgid cpu = true) :
    (finishTaskSwitch ignoreTgid s prev next cpu rss off on rooms).start.lookup
        (procId next.pid cpu) =
      if s.start.accepts rooms.start (procId next.pid cpu) then
        some ⟨on, next.rchar, next.wchar⟩
      else none := by
  obtain ⟨hctrl, hstart, -⟩ := leave_frame ignoreTgid s prev cpu rss off rooms.total
  rw [finishTaskSwitch_of_active hact, enter, hctrl, if_pos hsel]
  show (BpfMap.update _ rooms.start _ _).lookup _ = _
  rw [hstart, BpfMap.lookup_update_self]

variable (off on) in
theorem switch_snapshot (h : snapshots ignoreTgid s next cpu rooms = true) :
    (finishTaskSwitch ignoreTgid s prev next cpu rss off on rooms).start.lookup
        (procId next.pid cpu) = some ⟨on, next.rchar, next.wchar⟩ ∧
      s.rscCtrlMap.rscFunc = true ∧
      selects ignoreTgid s.rscCtrlMap next.pid next.tgid cpu = true := by
  simp only [snapshots, Bool.and_eq_true] at h
  obtain ⟨⟨hact, hsel⟩, hacc⟩ := h
  refine ⟨?_, hact, hsel⟩
  rw [switch_next hact hsel, if_pos hacc]

end Switch

/-! ## The bound -/

/-- A stay whose snapshot was taken at its beginning has been selected since. -/
structure Stay.Certain (p : ProcId) (s : State) (st : Stay) (ignoreTgid : Int) : Prop where
  snapshot : ∃ begun, s.start.lookup p = some begun ∧ begun.time = st.since
  picked : picks ignoreTgid p s.rscCtrlMap st = true
  ordered : st.since ≤ st.last
  counted : st.selected = st.last.toNat - st.since.toNat

structure Keeps (ignoreTgid : Int) (p : ProcId) (g : Timesheet) (s : State) (tr : List Moment) :
    Prop where
  total : ∀ t, s.total.lookup p = some t → t.time.toNat ≤ g.past
  certain : ∀ st, g.stay = some st → st.sure = true → st.Certain p s ignoreTgid
  clock : ∀ st, g.stay = some st → st.last ∈ tr.flatMap Moment.stamps

theorem Forward.of_snoc {m : Moment} (h : Forward (pre ++ [m])) : Forward pre := by
  rw [Forward, List.flatMap_append, List.pairwise_append] at h
  exact h.1

theorem Forward.le {m : Moment} (h : Forward (pre ++ [m])) {a b : UInt64}
    (ha : a ∈ pre.flatMap Moment.stamps) (hb : b ∈ m.stamps) : a ≤ b := by
  rw [Forward, List.flatMap_append, List.pairwise_append] at h
  exact h.2.2 a ha b (by simpa using hb)

theorem mem_stamps_left {m : Moment} {a : UInt64} (h : a ∈ pre.flatMap Moment.stamps) :
    a ∈ (pre ++ [m]).flatMap Moment.stamps := by
  rw [List.flatMap_append]
  exact List.mem_append_left _ h

theorem mem_stamps_right {m : Moment} {a : UInt64} (h : a ∈ m.stamps) :
    a ∈ (pre ++ [m]).flatMap Moment.stamps := by
  rw [List.flatMap_append]
  exact List.mem_append_right _ (by simpa using h)

theorem Stay.Certain.of_eq {st : Stay} {s' : State} (h : st.Certain p s ignoreTgid)
    (hstart : s'.start.lookup p = s.start.lookup p) (hctrl : s'.rscCtrlMap = s.rscCtrlMap) :
    st.Certain p s' ignoreTgid := by
  refine ⟨?_, ?_, h.ordered, h.counted⟩
  · rw [hstart]
    exact h.snapshot
  · rw [hctrl]
    exact h.picked

/-- A certain stay has been selected for its whole length. -/
theorem Stay.Certain.count {st : Stay} (h : st.Certain p s ignoreTgid) {now : UInt64}
    (hnow : st.last ≤ now) :
    (st.count ignoreTgid p s.rscCtrlMap now).selected = now.toNat - st.since.toNat := by
  have hlast := UInt64.le_iff_toNat_le.mp h.ordered
  have hnow := UInt64.le_iff_toNat_le.mp hnow
  show st.selected +
    (if picks ignoreTgid p s.rscCtrlMap st then now.toNat - st.last.toNat else 0) = _
  rw [if_pos h.picked, h.counted]
  omega

theorem Keeps.control (h : Keeps ignoreTgid p g s pre) {now : UInt64}
    (hfwd : Forward (pre ++ [Moment.rscCtrl now c])) :
    Keeps ignoreTgid p (g.after ignoreTgid p s (.rscCtrl now c)) { s with rscCtrlMap := c }
      (pre ++ [Moment.rscCtrl now c]) := by
  have hstay : ∀ st', (g.after ignoreTgid p s (.rscCtrl now c)).stay = some st' → ∃ st,
      g.stay = some st ∧ st' = { st.count ignoreTgid p s.rscCtrlMap now with
        sure := st.sure && picks ignoreTgid p c st } := by
    intro st' hst'
    obtain ⟨st, hst, rfl⟩ := Option.map_eq_some_iff.mp hst'
    exact ⟨st, hst, rfl⟩
  constructor
  · exact h.total
  · intro st' hst' hsure
    obtain ⟨st, hst, rfl⟩ := hstay st' hst'
    have hboth : st.sure = true ∧ picks ignoreTgid p c st = true := by simpa using hsure
    have hcertain := h.certain st hst hboth.1
    have hle : st.last ≤ now := hfwd.le (h.clock st hst) (List.mem_singleton_self now)
    exact ⟨hcertain.snapshot, hboth.2, UInt64.le_trans hcertain.ordered hle, hcertain.count hle⟩
  · intro st' hst'
    obtain ⟨st, hst, rfl⟩ := hstay st' hst'
    exact mem_stamps_right (List.mem_singleton_self now)

theorem Keeps.delete (h : Keeps ignoreTgid p g s pre) (k : ProcId) :
    Keeps ignoreTgid p (g.after ignoreTgid p s (.deleteTotal k))
      { s with total := s.total.delete k } (pre ++ [Moment.deleteTotal k]) := by
  show Keeps ignoreTgid p (if k = p then { g with past := 0 } else g) _ _
  by_cases hk : k = p
  · rw [if_pos hk]
    constructor
    · intro t ht
      rw [hk, BpfMap.lookup_delete_self] at ht
      cases ht
    · intro st hst hsure
      exact (h.certain st hst hsure).of_eq rfl rfl
    · exact fun st hst => mem_stamps_left (h.clock st hst)
  · rw [if_neg hk]
    constructor
    · intro t ht
      rw [BpfMap.lookup_delete_of_ne _ (Ne.symm hk)] at ht
      exact h.total t ht
    · intro st hst hsure
      exact (h.certain st hst hsure).of_eq rfl rfl
    · exact fun st hst => mem_stamps_left (h.clock st hst)

section Switch

variable {prev next : Task} {cpu : Int} {rss : RssStat} {off on : UInt64} {rooms : Rooms}

/-- What `total` holds for the task that leaves the CPU. -/
theorem Keeps.close (h : Keeps ignoreTgid p g s pre)
    (hfwd : Forward (pre ++ [Moment.finishTaskSwitch prev next cpu rss off on rooms]))
    (hsure : ChargedSure ignoreTgid p g s (.finishTaskSwitch prev next cpu rss off on rooms))
    {t : TotalRsc}
    (ht : (finishTaskSwitch ignoreTgid s prev next cpu rss off on rooms).total.lookup p =
      some t) :
    t.time.toNat ≤ (g.close ignoreTgid p s.rscCtrlMap off true).past := by
  have hpast : g.past ≤ (g.close ignoreTgid p s.rscCtrlMap off true).past := Nat.le_add_right _ _
  rcases switch_total ht with hold | ⟨hp, hact, hsel, begun, hbegun, htime⟩
  · exact (h.total t hold).trans hpast
  · have hs := hsure hp hact hsel (by rw [hbegun]; rfl)
    obtain ⟨st, hst, hst'⟩ := (Option.any_eq_true _ _).mp hs
    have hcertain := h.certain st hst hst'
    have hle : st.last ≤ off := hfwd.le (h.clock st hst) (by simp [Moment.stamps])
    have hcount := hcertain.count hle
    obtain ⟨begun', hbegun', hsince⟩ := hcertain.snapshot
    cases hbegun.symm.trans hbegun'
    -- a certain stay began at its snapshot, so the charge is its length
    have hspan : (off - begun.time).toNat = off.toNat - st.since.toNat := by
      rw [hsince]
      exact UInt64.toNat_sub_of_le _ _ (UInt64.le_trans hcertain.ordered hle)
    have hold : (usage s p).time.toNat ≤ g.past := by
      unfold usage
      cases hl : s.total.lookup p with
      | none => exact Nat.zero_le _
      | some t₀ => exact h.total t₀ hl
    have hclosed : (g.close ignoreTgid p s.rscCtrlMap off true).past =
        g.past + (off.toNat - st.since.toNat) := by
      rw [← hcount]
      simp only [Timesheet.close, if_true, Timesheet.selected, hst, Option.map_some]
    rw [hclosed, htime, UInt64.toNat_add, hspan]
    exact (Nat.mod_le _ _).trans (by omega)

theorem Keeps.switch (h : Keeps ignoreTgid p g s pre)
    (hfwd : Forward (pre ++ [Moment.finishTaskSwitch prev next cpu rss off on rooms]))
    (hsure : ChargedSure ignoreTgid p g s (.finishTaskSwitch prev next cpu rss off on rooms)) :
    Keeps ignoreTgid p (g.after ignoreTgid p s (.finishTaskSwitch prev next cpu rss off on rooms))
      (finishTaskSwitch ignoreTgid s prev next cpu rss off on rooms)
      (pre ++ [Moment.finishTaskSwitch prev next cpu rss off on rooms]) := by
  -- what was counted for the stays up to this switch
  have htotal : ∀ t, (finishTaskSwitch ignoreTgid s prev next cpu rss off on rooms).total.lookup
      p = some t → t.time.toNat ≤
        (g.after ignoreTgid p s (.finishTaskSwitch prev next cpu rss off on rooms)).past := by
    intro t ht
    have hmade : ((finishTaskSwitch ignoreTgid s prev next cpu rss off on rooms).total.lookup
        p).isSome = true := by rw [ht]; rfl
    have hpast : (g.after ignoreTgid p s (.finishTaskSwitch prev next cpu rss off on rooms)).past =
        (if procId prev.pid cpu = p then g.close ignoreTgid p s.rscCtrlMap off true
          else g).past := by
      simp only [Timesheet.after, hmade]
      split <;> rfl
    rw [hpast]
    split
    · exact h.close hfwd hsure ht
    · rename_i hp
      rcases switch_total ht with hold | ⟨hp', -⟩
      · exact h.total t hold
      · exact absurd hp' hp
  -- the new stay, the end of the old one, or a switch of two others
  by_cases hp' : procId next.pid cpu = p
  · have hstay : (g.after ignoreTgid p s
        (.finishTaskSwitch prev next cpu rss off on rooms)).stay =
          some ⟨next.tgid, cpu, on, on, 0, snapshots ignoreTgid s next cpu rooms⟩ := by
      simp only [Timesheet.after, if_pos hp']
    refine ⟨htotal, fun st hst hst' => ?_, fun st hst => ?_⟩
    · cases hstay.symm.trans hst
      obtain ⟨hlookup, hact, hsel⟩ := switch_snapshot off on hst'
      rw [hp'] at hlookup
      have hpid : next.pid = p.pid := by rw [← hp']; rfl
      refine ⟨⟨_, hlookup, rfl⟩, ?_, UInt64.le_refl _, (Nat.sub_self _).symm⟩
      rw [switch_ctrl, picks, hact, Bool.true_and, ← hpid]
      exact hsel
    · cases hstay.symm.trans hst
      exact mem_stamps_right (by simp [Moment.stamps])
  · have hstart := @switch_start ignoreTgid p s prev next cpu rss off on rooms hp'
    by_cases hp : procId prev.pid cpu = p
    · have hstay : (g.after ignoreTgid p s
          (.finishTaskSwitch prev next cpu rss off on rooms)).stay = none := by
        simp only [Timesheet.after, if_pos hp, if_neg hp', Timesheet.close]
      refine ⟨htotal, fun st hst => ?_, fun st hst => ?_⟩
      · cases hstay.symm.trans hst
      · cases hstay.symm.trans hst
    · have hstay : (g.after ignoreTgid p s
          (.finishTaskSwitch prev next cpu rss off on rooms)).stay = g.stay := by
        simp only [Timesheet.after, if_neg hp, if_neg hp']
      refine ⟨htotal, fun st hst hst' => ?_, fun st hst => ?_⟩
      · exact (h.certain st (hstay ▸ hst) hst').of_eq hstart switch_ctrl
      · exact mem_stamps_left (h.clock st (hstay ▸ hst))

end Switch

theorem keeps (hfwd : Forward tr)
    (h : Throughout (fun pre m => ChargedSure ignoreTgid p (timesheet ignoreTgid p c pre)
      ((timed ignoreTgid c).exec pre) m) tr) :
    Keeps ignoreTgid p (timesheet ignoreTgid p c tr) ((timed ignoreTgid c).exec tr) tr := by
  induction tr using List.reverseRecOn with
  | nil =>
    refine ⟨fun t ht => ?_, fun st hst => ?_, fun st hst => ?_⟩
    · cases (BpfMap.lookup_empty p).symm.trans ht
    · cases hst
    · cases hst
  | append_singleton pre m ih =>
    have hpre := ih hfwd.of_snoc h.of_snoc
    have hsure := h.last
    rw [timesheet, Machine.ghost_snoc, Machine.exec_snoc]
    change Keeps ignoreTgid p (Timesheet.after ignoreTgid p (timesheet ignoreTgid p c pre)
      ((timed ignoreTgid c).exec pre) m) _ _
    cases m with
    | rscCtrl now c' => exact hpre.control hfwd
    | deleteTotal k => exact hpre.delete k
    | finishTaskSwitch prev next cpu rss off on rooms => exact hpre.switch hfwd hsure

/-- In every run, with any toggles and any removals by user space. -/
theorem time_bounded (ignoreTgid : Int) (c : RscCtrl) (p : ProcId) (tr : List Moment)
    (hfwd : Forward tr)
    (h : Throughout (fun pre m => ChargedSure ignoreTgid p (timesheet ignoreTgid p c pre)
      ((timed ignoreTgid c).exec pre) m) tr) :
    Throughout (fun pre m => Bounded ignoreTgid p c (pre ++ [m])) tr := by
  intro pre m hp t ht
  have hpre : Forward (pre ++ [m]) := by
    obtain ⟨post, rfl⟩ := hp
    rw [Forward, List.flatMap_append, List.pairwise_append] at hfwd
    exact hfwd.1
  exact ((keeps hpre (h.restrict hp)).total t ht).trans (Nat.le_add_right _ _)

section Runs

instance (m : Moment) : Decidable (ChargedSure ignoreTgid p g s m) :=
  match m with
  | .finishTaskSwitch .. => inferInstanceAs (Decidable (_ → _))
  | .rscCtrl .. | .deleteTotal _ => isTrue trivial

instance (tr : List Moment) : Decidable (Forward tr) :=
  inferInstanceAs (Decidable (List.Pairwise _ _))

def off : RscCtrl := { all with rscFunc := false }

/-- Task 5 gets CPU 0 at the time `on`. -/
def comes (on : UInt64) : Moment :=
  .finishTaskSwitch swapper ⟨5, 5, 0, 0⟩ 0 onePage (on - 1) on ⟨true, true⟩

/-- Task 5 leaves CPU 0 at the time `off`. -/
def goes (off : UInt64) : Moment :=
  .finishTaskSwitch ⟨5, 5, 0, 0⟩ swapper 0 onePage off (off + 1) ⟨true, true⟩

def pausedBetween : List Moment :=
  [comes 10, goes 30, .rscCtrl 40 off, .rscCtrl 50 all, comes 60, goes 70]

theorem time_bounded_pausedBetween :
    Throughout (fun pre m => Bounded 1 ⟨5, 0⟩ all (pre ++ [m])) pausedBetween :=
  time_bounded 1 all ⟨5, 0⟩ pausedBetween (by decide) (by decide +kernel)

/-- The image is off when task 5 leaves the CPU and when it comes back. -/
def pausedAcross : List Moment :=
  [comes 10, .rscCtrl 20 off, goes 30, comes 60, .rscCtrl 70 all, goes 100]

/-- Task 5 is charged for 90, of which it spent 30 on the CPU while it was selected. -/
theorem pause_charged :
    Forward pausedAcross ∧ ValidSchedule (fun m => m.event.switch) pausedAcross ∧
      ¬Bounded 1 ⟨5, 0⟩ all pausedAcross := by
  refine ⟨by decide, ⟨[0], fun cpu => ⟨0, cpu⟩, by unfold Apart; decide, by decide⟩, ?_⟩
  intro h
  have htotal : ((timed 1 all).exec pausedAcross).total.lookup ⟨5, 0⟩ =
      some ⟨5, -1, 0, 90, 1, 0, 0⟩ := by decide +kernel
  have hle : 90 ≤ (timesheet 1 ⟨5, 0⟩ all pausedAcross).selected := h _ htotal
  have hspent : (timesheet 1 ⟨5, 0⟩ all pausedAcross).selected = 30 := by decide +kernel
  omega

end Runs

end CpuSubsystem.ResourceImage
