import CpuSubsystem.ProcImage.ScheduleImage.Model
import Mathlib.Logic.Function.Basic

/-!
# The statistics refine the history

The purpose of the maps, in its own terms: for every task that was seen since its last exit, when
it became ready last and the delays that it was charged, and all delays together.  The records are
the tallies of these lists.
-/

namespace CpuSubsystem.ScheduleImage

/-- When a task became ready last, and the delays charged to it since its record was created. -/
structure Waits where
  ready : UInt64
  charged : List UInt64

structure Ledger where
  table : ProcId → Option Waits
  all : List UInt64

namespace Ledger

def initial : Ledger where
  table _ := none
  all := []

/-- The delays charged to `k` since its record was created. -/
def charges (l : Ledger) (k : ProcId) : List UInt64 := ((l.table k).map Waits.charged).getD []

def ready (l : Ledger) (k : ProcId) (now : UInt64) : Ledger :=
  { l with table := Function.update l.table k (some ⟨now, l.charges k⟩) }

/-- The task gets the CPU: a task that was never seen is not charged. -/
def charge (l : Ledger) (k : ProcId) (now : UInt64) : Ledger :=
  match l.table k with
  | none => l
  | some w =>
    { table := Function.update l.table k (some ⟨w.ready, w.charged ++ [now - w.ready]⟩)
      all := l.all ++ [now - w.ready] }

def forget (l : Ledger) (k : ProcId) : Ledger :=
  { l with table := Function.update l.table k none }

def step (l : Ledger) : Event → Ledger
  | .schedCtrl _ => l
  | .schedWakeup p cpu now _ | .schedWakeupNew p cpu now _ => l.ready (procId p.pid cpu) now
  | .schedSwitch prev next cpu now _ =>
    let l := if prev.state = taskRunning then l.ready (procId prev.pid cpu) now else l
    l.charge (procId next.pid cpu) now
  | .schedProcessExit p cpu => l.forget (procId p.pid cpu)

theorem ready_table_self (l : Ledger) (k : ProcId) (now : UInt64) :
    (l.ready k now).table k = some ⟨now, l.charges k⟩ :=
  Function.update_self _ _ _

theorem ready_table_of_ne (l : Ledger) {k q : ProcId} (now : UInt64) (h : q ≠ k) :
    (l.ready k now).table q = l.table q :=
  Function.update_of_ne h _ _

theorem charge_of_none {l : Ledger} {k : ProcId} (now : UInt64) (h : l.table k = none) :
    l.charge k now = l := by
  simp only [charge, h]

theorem charge_of_some {l : Ledger} {k : ProcId} {w : Waits} (now : UInt64)
    (h : l.table k = some w) :
    l.charge k now =
      ⟨Function.update l.table k (some ⟨w.ready, w.charged ++ [now - w.ready]⟩),
        l.all ++ [now - w.ready]⟩ := by
  simp only [charge, h]

theorem charges_of_some {l : Ledger} {k : ProcId} {w : Waits} (h : l.table k = some w) :
    l.charges k = w.charged := by
  rw [charges, h]
  rfl

theorem charges_ready (l : Ledger) (k : ProcId) (now : UInt64) (q : ProcId) :
    (l.ready k now).charges q = l.charges q := by
  by_cases hq : q = k
  · rw [hq, charges_of_some (l.ready_table_self k now)]
  · rw [charges, l.ready_table_of_ne now hq]
    rfl

end Ledger

def ledger (tr : List Event) : Ledger := tr.foldl Ledger.step Ledger.initial

theorem ledger_snoc (pre : List Event) (e : Event) : ledger (pre ++ [e]) = (ledger pre).step e := by
  rw [ledger, List.foldl_append]
  rfl

/-- The record `e` is the tally of what `w` was charged. -/
structure RecordOf (w : Waits) (e : ScheduleEvent) : Prop where
  enterTime : e.enterTime = w.ready
  count : e.count = toInt (max 1 w.charged.length)
  tally : Tally w.charged e.sumDelay e.maxDelay e.minDelay

/-- The elements of `proc_schedule` and `enable_add` under one key. -/
inductive Agrees : Option Waits → Option ScheduleEvent → Option Bool → Prop where
  | absent : Agrees none none none
  | present {w : Waits} {e : ScheduleEvent} (h : RecordOf w e) :
      Agrees (some w) (some e) (some !w.charged.isEmpty)

theorem Agrees.of_none {w : Option Waits} {a : Option Bool} (h : Agrees w none a) : w = none := by
  cases h
  rfl

theorem Agrees.of_some {w : Option Waits} {e : ScheduleEvent} {a : Option Bool}
    (h : Agrees w (some e) a) :
    ∃ w', w = some w' ∧ a = some (!w'.charged.isEmpty) ∧ RecordOf w' e := by
  cases h with
  | present hrec => exact ⟨_, rfl, rfl, hrec⟩

structure Refines (l : Ledger) (s : State) : Prop where
  keys : ∀ k, Agrees (l.table k) (s.procSchedule.lookup k) (s.enableAdd.lookup k)
  sysCount : s.sysSchedule.sumCount = UInt64.ofNat l.all.length
  sysTally : Tally l.all s.sysSchedule.sumDelay s.sysSchedule.maxDelay s.sysSchedule.minDelay

theorem recordOf_create (p : Task) (now : UInt64) :
    RecordOf ⟨now, []⟩ (ScheduleEvent.create p now) where
  enterTime := rfl
  count := rfl
  tally := tally_nil

theorem RecordOf.ready {w : Waits} {e : ScheduleEvent} (h : RecordOf w e) (now : UInt64) :
    RecordOf ⟨now, w.charged⟩ { e with enterTime := now } :=
  ⟨rfl, h.count, h.tally⟩

theorem RecordOf.charge {w : Waits} {e : ScheduleEvent} (h : RecordOf w e) (prio : Int)
    {d : UInt64} (hd : d ≠ 0) :
    RecordOf ⟨w.ready, w.charged ++ [d]⟩ (e.charge (!w.charged.isEmpty) prio d) where
  enterTime := h.enterTime
  count := by
    have hcount := h.count
    cases hw : w.charged with
    | nil =>
      rw [hw] at hcount
      exact hcount
    | cons x l =>
      rw [hw] at hcount
      have hold : max 1 ((x :: l).length : Int) = l.length + 1 := by
        rw [List.length_cons]
        omega
      have hnew : max 1 ((x :: l ++ [d]).length : Int) = l.length + 1 + 1 := by
        rw [List.length_append, List.length_cons, List.length_singleton]
        omega
      have hmore : (e.charge (!(x :: l).isEmpty) prio d).count = toInt (e.count + 1) := rfl
      rw [hold] at hcount
      rw [hmore, hnew, hcount, toInt_toInt_add_one]
  tally := h.tally.add hd

section Steps

variable {l : Ledger} {s : State}

theorem Refines.ready (h : Refines l s) (p : Task) (cpu : Int) (now : UInt64) {rooms : Rooms}
    (hadd : rooms.enableAdd = true) (hproc : rooms.procSchedule = true) :
    Refines (l.ready (procId p.pid cpu) now) (ready s p cpu now rooms) := by
  have hk := h.keys (procId p.pid cpu)
  cases hl : s.procSchedule.lookup (procId p.pid cpu) with
  | none =>
    rw [ready_of_none s p cpu now rooms hl, hadd, hproc, BpfMap.update_true, BpfMap.update_true]
    rw [hl] at hk
    refine ⟨elements_update h.keys ?_ ?_ ?_, h.sysCount, h.sysTally⟩
    · exact fun k hne => BpfMap.lookup_store_of_ne _ _ hne
    · exact fun k hne => BpfMap.lookup_store_of_ne _ _ hne
    · rw [BpfMap.lookup_store_self, BpfMap.lookup_store_self, Ledger.charges, hk.of_none]
      exact Agrees.present (recordOf_create p now)
  | some e =>
    rw [ready_of_some s p cpu now rooms hl]
    rw [hl] at hk
    obtain ⟨w, hw, ha, hrec⟩ := hk.of_some
    refine ⟨elements_update h.keys ?_ ?_ ?_, h.sysCount, h.sysTally⟩
    · exact fun k hne => BpfMap.lookup_store_of_ne _ _ hne
    · exact fun k _ => rfl
    · rw [BpfMap.lookup_store_self, ha, Ledger.charges_of_some hw]
      exact Agrees.present (hrec.ready now)

theorem Refines.charge (h : Refines l s) (next : Task) (cpu : Int) {now : UInt64} (rooms : Rooms)
    (hlt : ∀ w, l.table (procId next.pid cpu) = some w → w.ready < now) :
    Refines (l.charge (procId next.pid cpu) now) (charge s next cpu now rooms) := by
  have hk := h.keys (procId next.pid cpu)
  cases hl : s.procSchedule.lookup (procId next.pid cpu) with
  | none =>
    rw [charge_of_none s next cpu now rooms hl]
    rw [hl] at hk
    rw [Ledger.charge_of_none now hk.of_none]
    exact h
  | some e =>
    rw [hl] at hk
    obtain ⟨w, hw, ha, hrec⟩ := hk.of_some
    rw [charge_of_some s next cpu now rooms hl ha, Ledger.charge_of_some now hw, hrec.enterTime]
    have hltw := hlt w hw
    have hpos : now - w.ready ≠ 0 := by grind
    refine ⟨elements_update h.keys ?_ ?_ ?_, ?_, h.sysTally.add hpos⟩
    · exact fun k hne => BpfMap.lookup_store_of_ne _ _ hne
    · exact fun k hne => BpfMap.lookup_store_of_ne _ _ hne
    · have hset : (!(w.charged ++ [now - w.ready]).isEmpty) = true := by
        cases w.charged <;> rfl
      rw [BpfMap.lookup_store_self, BpfMap.lookup_store_self, ← hset]
      exact Agrees.present (hrec.charge next.prio hpos)
    · simp only [SumSchedule.charge, h.sysCount, List.length_append, List.length_singleton,
        UInt64.ofNat_add]
      rfl

theorem Refines.forget (h : Refines l s) (hact : s.schedCtrlMap.schedFunc = true) (p : Task)
    (cpu : Int) : Refines (l.forget (procId p.pid cpu)) (schedProcessExit s p cpu) := by
  unfold schedProcessExit
  rw [if_pos hact]
  refine ⟨elements_update h.keys ?_ ?_ ?_, h.sysCount, h.sysTally⟩
  · exact fun k hne => BpfMap.lookup_delete_of_ne _ hne
  · exact fun k hne => BpfMap.lookup_delete_of_ne _ hne
  · rw [BpfMap.lookup_delete_self, BpfMap.lookup_delete_self]
    exact Agrees.absent

end Steps

section Run

/-- The image stays active, the updates of the first two maps succeed, and a switch takes place
between two tasks.  `tg_schedule` may be full. -/
def Steady : Event → Prop
  | .schedCtrl c => c.schedFunc = true
  | .schedWakeup _ _ _ rooms | .schedWakeupNew _ _ _ rooms =>
      rooms.enableAdd = true ∧ rooms.procSchedule = true
  | .schedSwitch prev next _ _ rooms =>
      rooms.enableAdd = true ∧ rooms.procSchedule = true ∧ prev.pid ≠ next.pid
  | .schedProcessExit _ _ => True

def stamp : Event → Option UInt64
  | .schedWakeup _ _ now _ | .schedWakeupNew _ _ now _ | .schedSwitch _ _ _ now _ => some now
  | .schedCtrl _ | .schedProcessExit _ _ => none

structure SteadyRun (c : SchedCtrl) (tr : List Event) : Prop where
  active : c.schedFunc = true
  steady : ∀ e ∈ tr, Steady e
  clock : (tr.filterMap stamp).Pairwise (· < ·)

variable {c : SchedCtrl} {pre : List Event} {e : Event}

theorem SteadyRun.of_snoc (h : SteadyRun c (pre ++ [e])) : SteadyRun c pre := by
  refine ⟨h.active, fun x hx => h.steady x (List.mem_append_left _ hx), ?_⟩
  have hclock := h.clock
  rw [List.filterMap_append] at hclock
  exact (List.pairwise_append.mp hclock).1

theorem SteadyRun.last (h : SteadyRun c (pre ++ [e])) : Steady e :=
  h.steady e (List.mem_append_right _ (List.mem_singleton_self e))

theorem SteadyRun.later (h : SteadyRun c (pre ++ [e])) {now : UInt64} (he : stamp e = some now) :
    ∀ t ∈ pre.filterMap stamp, t < now := by
  intro t ht
  have hclock := h.clock
  rw [List.filterMap_append] at hclock
  exact (List.pairwise_append.mp hclock).2.2 t ht now (by simp [he])

/-- A task became ready at the time of an event. -/
def ReadyAt (l : Ledger) (times : List UInt64) : Prop :=
  ∀ k w, l.table k = some w → w.ready ∈ times

theorem ReadyAt.ready {l : Ledger} {times : List UInt64} (h : ReadyAt l times) (k : ProcId)
    (now : UInt64) : ReadyAt (l.ready k now) (times ++ [now]) := by
  intro q w hq
  by_cases hqk : q = k
  · rw [hqk, l.ready_table_self] at hq
    cases hq
    exact List.mem_append_right _ (List.mem_singleton_self now)
  · rw [l.ready_table_of_ne now hqk] at hq
    exact List.mem_append_left _ (h q w hq)

theorem ReadyAt.charge {l : Ledger} {times : List UInt64} (h : ReadyAt l times) (k : ProcId)
    (now : UInt64) : ReadyAt (l.charge k now) times := by
  cases hl : l.table k with
  | none =>
    rw [Ledger.charge_of_none now hl]
    exact h
  | some v =>
    rw [Ledger.charge_of_some now hl]
    intro q w hq
    by_cases hqk : q = k
    · simp only [hqk, Function.update_self, Option.some.injEq] at hq
      rw [← hq]
      exact h k v hl
    · simp only [Function.update_of_ne hqk] at hq
      exact h q w hq

theorem ReadyAt.forget {l : Ledger} {times : List UInt64} (h : ReadyAt l times) (k : ProcId) :
    ReadyAt (l.forget k) times := by
  intro q w hq
  unfold Ledger.forget at hq
  by_cases hqk : q = k
  · simp only [hqk, Function.update_self] at hq
    cases hq
  · simp only [Function.update_of_ne hqk] at hq
    exact h q w hq

theorem ReadyAt.mono {l : Ledger} {times : List UInt64} (h : ReadyAt l times) (now : UInt64) :
    ReadyAt l (times ++ [now]) :=
  fun k w hk => List.mem_append_left _ (h k w hk)

theorem procId_ne {p q : Int} (h : p ≠ q) (cpu : Int) : procId p cpu ≠ procId q cpu :=
  fun he => h (congrArg ProcId.pid he)

structure Inv (tr : List Event) (s : State) : Prop where
  active : s.schedCtrlMap.schedFunc = true
  refines : Refines (ledger tr) s
  readyAt : ReadyAt (ledger tr) (tr.filterMap stamp)

theorem stamps_snoc {now : UInt64} (he : stamp e = some now) :
    (pre ++ [e]).filterMap stamp = pre.filterMap stamp ++ [now] := by
  rw [List.filterMap_append, List.filterMap_cons, he, List.filterMap_nil]

theorem stamps_snoc_skip (he : stamp e = none) :
    (pre ++ [e]).filterMap stamp = pre.filterMap stamp := by
  rw [List.filterMap_append, List.filterMap_cons, he, List.filterMap_nil, List.append_nil]

/-- The two wakeups. -/
theorem Inv.wakeup {s : State} (h : Inv pre s) {p : Task} {cpu : Int} {now : UInt64}
    {rooms : Rooms} (hadd : rooms.enableAdd = true) (hproc : rooms.procSchedule = true)
    (hl : (ledger pre).step e = (ledger pre).ready (procId p.pid cpu) now)
    (he : stamp e = some now) : Inv (pre ++ [e]) (ready s p cpu now rooms) where
  active := by rw [ready_ctrl, h.active]
  refines := by
    rw [ledger_snoc, hl]
    exact h.refines.ready p cpu now hadd hproc
  readyAt := by
    rw [ledger_snoc, hl, stamps_snoc he]
    exact h.readyAt.ready (procId p.pid cpu) now

theorem Inv.switch {s : State} (h : Inv pre s) {prev next : Task} {cpu : Int} {now : UInt64}
    {rooms : Rooms} (hs : SteadyRun c (pre ++ [Event.schedSwitch prev next cpu now rooms])) :
    Inv (pre ++ [Event.schedSwitch prev next cpu now rooms])
      (schedSwitch s prev next cpu now rooms) := by
  obtain ⟨hadd, hproc, hne⟩ := hs.last
  have hlater := hs.later rfl
  have hsnoc : ledger (pre ++ [Event.schedSwitch prev next cpu now rooms]) =
      (if prev.state = taskRunning then (ledger pre).ready (procId prev.pid cpu) now
        else ledger pre).charge (procId next.pid cpu) now :=
    ledger_snoc _ _
  unfold schedSwitch
  rw [if_pos h.active]
  by_cases hrun : prev.state = taskRunning
  · rw [if_pos hrun] at hsnoc ⊢
    refine ⟨?_, ?_, ?_⟩
    · rw [charge_ctrl, ready_ctrl, h.active]
    · rw [hsnoc]
      apply (h.refines.ready prev cpu now hadd hproc).charge
      intro w hw
      rw [Ledger.ready_table_of_ne _ now (procId_ne hne.symm cpu)] at hw
      exact hlater _ (h.readyAt _ w hw)
    · rw [hsnoc, stamps_snoc rfl]
      exact (h.readyAt.ready _ now).charge _ now
  · rw [if_neg hrun] at hsnoc ⊢
    refine ⟨?_, ?_, ?_⟩
    · rw [charge_ctrl, h.active]
    · rw [hsnoc]
      apply h.refines.charge
      intro w hw
      exact hlater _ (h.readyAt _ w hw)
    · rw [hsnoc, stamps_snoc rfl]
      exact (h.readyAt.mono now).charge _ now

theorem SteadyRun.inv {tr : List Event} (h : SteadyRun c tr) : Inv tr ((machine c).exec tr) := by
  refine (machine c).invariant (fun _ _ h => h.of_snoc) ?_ ?_ tr h
  · refine ⟨h.active, ⟨fun _ => Agrees.absent, rfl, tally_nil⟩, ?_⟩
    intro k w hk
    cases hk
  · intro pre e hpre hinv
    have hlast := hpre.last
    generalize (machine c).exec pre = s at hinv ⊢
    cases e with
    | schedCtrl c' =>
      exact ⟨hlast, by rw [ledger_snoc]; exact ⟨hinv.refines.keys, hinv.refines.sysCount,
        hinv.refines.sysTally⟩, by rw [ledger_snoc, stamps_snoc_skip rfl]; exact hinv.readyAt⟩
    | schedWakeup p cpu now rooms =>
      change Inv _ (schedWakeup s p cpu now rooms)
      rw [schedWakeup, if_pos hinv.active]
      exact hinv.wakeup hlast.1 hlast.2 rfl rfl
    | schedWakeupNew p cpu now rooms =>
      change Inv _ (schedWakeupNew s p cpu now rooms)
      rw [schedWakeupNew, if_pos hinv.active]
      exact hinv.wakeup hlast.1 hlast.2 rfl rfl
    | schedSwitch prev next cpu now rooms => exact hinv.switch hpre
    | schedProcessExit p cpu =>
      change Inv _ (schedProcessExit s p cpu)
      refine ⟨?_, ?_, ?_⟩
      · rw [schedProcessExit, if_pos hinv.active]
        exact hinv.active
      · rw [ledger_snoc]
        exact hinv.refines.forget hinv.active p cpu
      · rw [ledger_snoc, stamps_snoc_skip rfl]
        exact hinv.readyAt.forget (procId p.pid cpu)

end Run

section Whole

def NoExit : Event → Prop
  | .schedProcessExit _ _ => False
  | _ => True

/-- All delays are those of the tasks in `K`. -/
structure Parts (K : Finset ProcId) (l : Ledger) : Prop where
  keys : ∀ k, l.table k ≠ none → k ∈ K
  all_eq : (l.all : Multiset UInt64) = ∑ k ∈ K, (l.charges k : Multiset UInt64)

/-- Only an exit forgets a task. -/
theorem table_ready_ne_none {l : Ledger} {q : ProcId} (k : ProcId) (now : UInt64)
    (h : l.table q ≠ none) : (l.ready k now).table q ≠ none := by
  by_cases hq : q = k
  · rw [hq, l.ready_table_self]
    exact Option.some_ne_none _
  · rw [l.ready_table_of_ne now hq]
    exact h

theorem table_charge_ne_none {l : Ledger} {q : ProcId} (k : ProcId) (now : UInt64) :
    (l.charge k now).table q ≠ none ↔ l.table q ≠ none := by
  cases hl : l.table k with
  | none => rw [Ledger.charge_of_none now hl]
  | some w =>
    rw [Ledger.charge_of_some now hl]
    by_cases hq : q = k
    · simp only [hq, Function.update_self, hl, ne_eq, reduceCtorEq, not_false_eq_true]
    · simp only [Function.update_of_ne hq]

theorem Parts.ready {K : Finset ProcId} {l : Ledger} {k : ProcId} {now : UInt64}
    (h : (l.all : Multiset UInt64) = ∑ q ∈ K, (l.charges q : Multiset UInt64)) :
    ((l.ready k now).all : Multiset UInt64) =
      ∑ q ∈ K, ((l.ready k now).charges q : Multiset UInt64) := by
  change (l.all : Multiset UInt64) = _
  rw [h]
  exact Finset.sum_congr rfl fun q _ => by rw [l.charges_ready]

theorem Parts.charge {K : Finset ProcId} {l : Ledger} (h : Parts K l) (k : ProcId)
    (now : UInt64) : Parts K (l.charge k now) := by
  refine ⟨fun q hq => h.keys q ((table_charge_ne_none k now).mp hq), ?_⟩
  cases hl : l.table k with
  | none =>
    rw [Ledger.charge_of_none now hl]
    exact h.all_eq
  | some w =>
    rw [Ledger.charge_of_some now hl]
    have hk : k ∈ K := h.keys k (by rw [hl]; exact Option.some_ne_none w)
    have hcharges : ∀ q, (Ledger.charges ⟨Function.update l.table k
        (some ⟨w.ready, w.charged ++ [now - w.ready]⟩), l.all ++ [now - w.ready]⟩ q :
          Multiset UInt64) =
        (l.charges q : Multiset UInt64) + if k = q then {now - w.ready} else 0 := by
      intro q
      by_cases hq : q = k
      · rw [hq, Ledger.charges_of_some hl, if_pos rfl]
        simp only [Ledger.charges, Function.update_self]
        rfl
      · rw [if_neg (Ne.symm hq), add_zero]
        simp only [Ledger.charges, Function.update_of_ne hq]
    simp only [hcharges, Finset.sum_add_distrib, Finset.sum_ite_eq, if_pos hk, ← h.all_eq]
    rfl

theorem parts_ledger {tr : List Event} (hex : ∀ e ∈ tr, NoExit e) {K : Finset ProcId}
    (hK : ∀ k, (ledger tr).table k ≠ none → k ∈ K) : Parts K (ledger tr) := by
  induction tr using List.reverseRecOn with
  | nil => exact ⟨hK, (Finset.sum_eq_zero fun _ _ => rfl).symm⟩
  | append_singleton pre e ih =>
    have hexp := fun x hx => hex x (List.mem_append_left _ hx)
    have hlast := hex e (List.mem_append_right _ (List.mem_singleton_self e))
    rw [ledger_snoc] at hK ⊢
    have hwake : ∀ k now, (∀ q, ((ledger pre).ready k now).table q ≠ none → q ∈ K) →
        Parts K ((ledger pre).ready k now) := by
      intro k now hq
      have hpre := ih hexp fun q hne => hq q (table_ready_ne_none k now hne)
      exact ⟨hq, Parts.ready hpre.all_eq⟩
    cases e with
    | schedCtrl c => exact ih hexp hK
    | schedWakeup p cpu now rooms => exact hwake _ now hK
    | schedWakeupNew p cpu now rooms => exact hwake _ now hK
    | schedSwitch prev next cpu now rooms =>
      simp only [Ledger.step] at hK ⊢
      have hq := fun q hne => hK q ((table_charge_ne_none _ now).mpr hne)
      split at hq
      · rename_i hrun
        rw [if_pos hrun]
        exact (hwake _ now hq).charge _ now
      · rename_i hrun
        rw [if_neg hrun]
        exact (ih hexp hq).charge _ now
    | schedProcessExit p cpu => exact hlast.elim

/-- The record under a key, all zero when there is none. -/
def State.record (s : State) (k : ProcId) : ScheduleEvent :=
  (s.procSchedule.lookup k).getD ScheduleEvent.zero

theorem Refines.of_mem_keys {l : Ledger} {s : State} (h : Refines l s) {k : ProcId}
    (hk : k ∈ s.procSchedule.keys) :
    s.enableAdd.lookup k = some (!(l.charges k).isEmpty) ∧
    (s.record k).count = toInt (max 1 (l.charges k).length) ∧
    Tally (l.charges k) (s.record k).sumDelay (s.record k).maxDelay (s.record k).minDelay := by
  obtain ⟨e, he⟩ := Option.isSome_iff_exists.mp (BpfMap.mem_keys.mp hk)
  have hkey := h.keys k
  rw [he] at hkey
  obtain ⟨w, hw, ha, hrec⟩ := hkey.of_some
  rw [State.record, he, Option.getD_some, Ledger.charges_of_some hw]
  exact ⟨ha, hrec.count, hrec.tally⟩

theorem Refines.keys_of_table {l : Ledger} {s : State} (h : Refines l s) {k : ProcId}
    (hk : l.table k ≠ none) : k ∈ s.procSchedule.keys := by
  rw [BpfMap.mem_keys]
  have hkey := h.keys k
  cases hl : s.procSchedule.lookup k with
  | none =>
    rw [hl] at hkey
    exact absurd hkey.of_none hk
  | some e => rfl

theorem ofNat_sum (K : Finset ProcId) (f : ProcId → Nat) :
    UInt64.ofNat (∑ k ∈ K, f k) = ∑ k ∈ K, UInt64.ofNat (f k) := by
  classical
  induction K using Finset.induction_on with
  | empty => rfl
  | insert k K hk ih => rw [Finset.sum_insert hk, Finset.sum_insert hk, UInt64.ofNat_add, ih]

/-- A count that did not wrap, of a record that was charged. -/
theorem Refines.count_eq {l : Ledger} {s : State} (h : Refines l s) {k : ProcId}
    (hk : k ∈ s.procSchedule.keys) (hlt : (l.charges k).length < 2 ^ 31) :
    (if s.enableAdd.lookup k = some true then (s.record k).count.toNat else 0) =
      (l.charges k).length := by
  obtain ⟨ha, hcount, _⟩ := h.of_mem_keys hk
  rw [ha]
  cases hc : l.charges k with
  | nil => rfl
  | cons d ds =>
    rw [hc] at hcount hlt
    have hset : (some !(d :: ds).isEmpty) = some true := rfl
    rw [if_pos hset, hcount, toInt_eq_self]
    · rw [List.length_cons]
      omega
    · omega
    · omega

/-- In every reachable state the records are the tallies of the delays charged since their
creation, and `sys_schedule` is the tally of all; without exits it combines the records, where a
record that was not charged yet, whose `count` is 1 all the same, counts for nothing. -/
theorem statistics_refine (c : SchedCtrl) (tr : List Event) (h : SteadyRun c tr) :
    Refines (ledger tr) ((machine c).exec tr) ∧
    ((∀ e ∈ tr, NoExit e) →
      let s := (machine c).exec tr
      Combined s.procSchedule.keys (ledger tr).charges s.sysSchedule.sumDelay
        s.sysSchedule.maxDelay s.sysSchedule.minDelay (fun k => (s.record k).sumDelay)
        (fun k => (s.record k).maxDelay) (fun k => (s.record k).minDelay) ∧
      s.sysSchedule.sumCount =
        UInt64.ofNat (∑ k ∈ s.procSchedule.keys, ((ledger tr).charges k).length) ∧
      ((∀ k ∈ s.procSchedule.keys, ((ledger tr).charges k).length < 2 ^ 31) →
        s.sysSchedule.sumCount = ∑ k ∈ s.procSchedule.keys,
          UInt64.ofNat
            (if s.enableAdd.lookup k = some true then (s.record k).count.toNat else 0))) := by
  have hinv := h.inv
  refine ⟨hinv.refines, fun hex => ?_⟩
  have hparts := parts_ledger hex fun k hk => hinv.refines.keys_of_table hk
  have hlen := length_of_parts hparts.all_eq
  have hsum : ((machine c).exec tr).sysSchedule.sumCount =
      UInt64.ofNat (∑ k ∈ ((machine c).exec tr).procSchedule.keys,
        ((ledger tr).charges k).length) := by
    rw [hinv.refines.sysCount, hlen]
  refine ⟨?_, hsum, fun hlt => ?_⟩
  · exact hinv.refines.sysTally.combined (fun k hk => (hinv.refines.of_mem_keys hk).2.2)
      hparts.all_eq
  · rw [hsum, ofNat_sum]
    exact Finset.sum_congr rfl fun k hk => by rw [hinv.refines.count_eq hk (hlt k hk)]

end Whole

section Sample

def allTasks : SchedCtrl where
  schedFunc := true
  targetPid := -1
  targetCpuId := -1
  targetTgid := -1

/-- On CPU 0: tasks 5 and 6 wake up, 5 is preempted by 6 and comes back. -/
def twoTasks : List Event :=
  [.schedWakeup ⟨5, 5, 120, 0⟩ 0 10 ⟨true, true, true⟩,
    .schedSwitch ⟨0, 0, 120, 0⟩ ⟨5, 5, 120, 0⟩ 0 15 ⟨true, true, true⟩,
    .schedWakeupNew ⟨6, 6, 120, 0⟩ 0 20 ⟨true, true, true⟩,
    .schedSwitch ⟨5, 5, 120, 0⟩ ⟨6, 6, 120, 0⟩ 0 30 ⟨true, true, true⟩,
    .schedSwitch ⟨6, 6, 120, 1⟩ ⟨5, 5, 120, 0⟩ 0 37 ⟨true, true, true⟩]

theorem twoTasks_steady : SteadyRun allTasks twoTasks where
  active := rfl
  steady e he := by
    simp only [twoTasks, List.mem_cons, List.not_mem_nil, or_false] at he
    rcases he with h | h | h | h | h <;> subst h <;> simp [Steady]
  clock := by decide

theorem statistics_refine_two_tasks :
    Refines (ledger twoTasks) ((machine allTasks).exec twoTasks) ∧
    ((∀ e ∈ twoTasks, NoExit e) →
      let s := (machine allTasks).exec twoTasks
      Combined s.procSchedule.keys (ledger twoTasks).charges s.sysSchedule.sumDelay
        s.sysSchedule.maxDelay s.sysSchedule.minDelay (fun k => (s.record k).sumDelay)
        (fun k => (s.record k).maxDelay) (fun k => (s.record k).minDelay) ∧
      s.sysSchedule.sumCount =
        UInt64.ofNat (∑ k ∈ s.procSchedule.keys, ((ledger twoTasks).charges k).length) ∧
      ((∀ k ∈ s.procSchedule.keys, ((ledger twoTasks).charges k).length < 2 ^ 31) →
        s.sysSchedule.sumCount = ∑ k ∈ s.procSchedule.keys,
          UInt64.ofNat
            (if s.enableAdd.lookup k = some true then (s.record k).count.toNat else 0))) :=
  statistics_refine allTasks twoTasks twoTasks_steady

/-- Task 5 wakes up. -/
def oneWakeup : List Event := [.schedWakeup ⟨5, 5, 120, 0⟩ 0 10 ⟨true, true, true⟩]

theorem oneWakeup_steady : SteadyRun allTasks oneWakeup where
  active := rfl
  steady e he := by
    rw [List.mem_singleton.mp he]
    simp [Steady]
  clock := by decide

/-- A record without a charge has the count 1, and `sys_schedule` counts 0: it is neither the same
fold, whose count is at least 1, nor the combination of the records. -/
theorem wakeup_not_combined :
    SteadyRun allTasks oneWakeup ∧ (∀ e ∈ oneWakeup, NoExit e) ∧
    let s := (machine allTasks).exec oneWakeup
    s.sysSchedule.sumCount ≠ UInt64.ofNat (max 1 (ledger oneWakeup).all.length) ∧
    s.sysSchedule.sumCount ≠
      ∑ k ∈ s.procSchedule.keys, UInt64.ofNat (s.record k).count.toNat := by
  refine ⟨oneWakeup_steady, ?_, ?_, ?_⟩
  · intro e he
    rw [List.mem_singleton.mp he]
    trivial
  · decide +kernel
  · decide +kernel

end Sample

end CpuSubsystem.ScheduleImage
