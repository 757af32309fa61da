import CpuSubsystem.CpuWatcher.Sar.Model
import CpuSubsystem.Lib.Brackets
import CpuSubsystem.Lib.Latest
import Mathlib.Algebra.BigOperators.Group.Finset.Piecewise
import Mathlib.Data.UInt

/-!
# Time of the interrupt handlers

Softirqs and hard irqs are measured alike: the entry time goes under the vector, or the irq number,
and the exit counts from what is there.  The key does not tell the CPUs apart, so an exit may find
the entry of another CPU.
-/

namespace CpuSubsystem.Sar

/-- One kind of handlers: their events, where the entry times are, and what the durations add up to.
An entry can be refused its `room`; an exit `keeps` the duration when the accumulator takes it. -/
structure Meter where
  view : Event → Option (Bracket Nat Nat UInt64)
  start : State → BpfMap Nat UInt64
  room : Event → Bool
  total : State → UInt64
  keeps : State → Event → Bool
  initially : ∀ c, start (initial c) = BpfMap.empty ∧ total (initial c) = 0
  opens : ∀ {forksAddr s e cpu key time}, view e = some (.opens cpu key time) →
    start (step forksAddr s e) = (start s).update (room e) key time ∧
      total (step forksAddr s e) = total s
  closes : ∀ {forksAddr s e cpu key now}, view e = some (.closes cpu key now) →
    start (step forksAddr s e) = start s ∧
      total (step forksAddr s e) = total s +
        if keeps s e then (((start s).lookup key).map fun time => now - time).getD 0 else 0
  other : ∀ {forksAddr s e}, view e = none →
    start (step forksAddr s e) = start s ∧ total (step forksAddr s e) = total s

def Event.softirq : Event → Option (Bracket Nat Nat UInt64)
  | .softirqEntry cpu vec val _ => some (.opens cpu vec val)
  | .softirqExit cpu vec now _ => some (.closes cpu vec now)
  | _ => none

def Event.hardirq : Event → Option (Bracket Nat Nat UInt64)
  | .irqHandlerEntry cpu irq ts _ => some (.opens cpu irq ts)
  | .irqHandlerExit cpu irq now => some (.closes cpu irq now)
  | _ => none

def Event.room : Event → Bool
  | .softirqEntry _ _ _ room => room
  | .softirqExit _ _ _ room => room
  | .irqHandlerEntry _ _ _ room => room
  | _ => true

/-- The accumulated softirq time; before the first duration it has no element. -/
def State.softirqTime (s : State) : UInt64 := (s.softirqLastTime.lookup 0).getD 0

theorem traceSoftirqExit_time (s : State) (vec : Nat) (now : UInt64) (room : Bool) :
    (traceSoftirqExit s vec now room).softirqTime = s.softirqTime +
      if s.softirqLastTime.accepts room 0 then
        ((s.softirqCpuEnterTime.lookup vec).map fun time => now - time).getD 0
      else 0 := by
  unfold State.softirqTime traceSoftirqExit
  cases s.softirqCpuEnterTime.lookup vec with
  | none => simp
  | some val =>
    cases hlast : s.softirqLastTime.lookup 0 with
    | none =>
      rw [BpfMap.lookup_update_self]
      cases s.softirqLastTime.accepts room 0 with
      | true => simp
      | false => simp
    | some last => simp [BpfMap.accepts, hlast]

/-- Other events have no part in the times of the handlers. -/
theorem handlers_frame (forksAddr : UInt64) (s : State) {e : Event} (hs : e.softirq = none)
    (hi : e.hardirq = none) :
    (step forksAddr s e).softirqCpuEnterTime = s.softirqCpuEnterTime ∧
      (step forksAddr s e).softirqLastTime = s.softirqLastTime ∧
      (step forksAddr s e).irqCpuEnterStart = s.irqCpuEnterStart ∧
      (step forksAddr s e).irqLastTime = s.irqLastTime := by
  cases e with
  | softirqEntry _ _ _ _ | softirqExit _ _ _ _ => cases hs
  | irqHandlerEntry _ _ _ _ | irqHandlerExit _ _ _ => cases hi
  | schedSwitch cpu prev next time =>
    obtain ⟨start, count, hframe⟩ := traceSchedSwitch2_frame s prev next time
    simp only [step, hframe, and_self]
  | finishTaskSwitch cpu prev time =>
    obtain ⟨kt, ut, hframe⟩ := finishTaskSwitch_frame s prev time
    simp only [step, hframe, and_self]
  | cpuIdle cpuId state time =>
    obtain ⟨start, last, hframe⟩ := traceCpuIdle_frame s cpuId state time
    simp only [step, hframe, and_self]
  | _ => exact ⟨rfl, rfl, rfl, rfl⟩

/-- The softirqs; the first exit has to make the element of the accumulator. -/
def softirq : Meter where
  view := Event.softirq
  start s := s.softirqCpuEnterTime
  room := Event.room
  total := State.softirqTime
  keeps s e := s.softirqLastTime.accepts e.room 0
  initially _ := ⟨rfl, rfl⟩
  opens {forksAddr s e cpu key time} h := by
    cases e with
    | softirqEntry cpu vec val room =>
      cases h
      exact ⟨rfl, rfl⟩
    | _ => cases h
  closes {forksAddr s e cpu key now} h := by
    cases e with
    | softirqExit cpu vec now room =>
      cases h
      exact ⟨rfl, traceSoftirqExit_time s key now room⟩
    | _ => cases h
  other {forksAddr s e} h := by
    cases hi : e.hardirq with
    | none =>
      obtain ⟨hstart, hlast, -⟩ := handlers_frame forksAddr s h hi
      exact ⟨hstart, by rw [State.softirqTime, hlast, State.softirqTime]⟩
    | some b =>
      cases e with
      | irqHandlerEntry _ _ _ _ | irqHandlerExit _ _ _ => exact ⟨rfl, rfl⟩
      | _ => cases hi

def hardirq : Meter where
  view := Event.hardirq
  start s := s.irqCpuEnterStart
  room := Event.room
  total s := s.irqLastTime
  keeps _ _ := true
  initially _ := ⟨rfl, rfl⟩
  opens {forksAddr s e cpu key time} h := by
    cases e with
    | irqHandlerEntry cpu irq ts room =>
      cases h
      exact ⟨rfl, rfl⟩
    | _ => cases h
  closes {forksAddr s e cpu key now} h := by
    cases e with
    | irqHandlerExit cpu irq now =>
      cases h
      refine ⟨rfl, ?_⟩
      show (traceIrqHandlerExit s key now).irqLastTime = _
      unfold traceIrqHandlerExit
      cases s.irqCpuEnterStart.lookup key <;> simp
    | _ => cases h
  other {forksAddr s e} h := by
    cases hs : e.softirq with
    | none =>
      obtain ⟨-, -, hframe⟩ := handlers_frame forksAddr s hs h
      exact hframe
    | some b =>
      cases e with
      | softirqEntry _ _ _ _ | softirqExit _ _ _ _ => exact ⟨rfl, rfl⟩
      | _ => cases hs

namespace Meter

variable (m : Meter) (forksAddr : UInt64) (c : SarCtrl) (K : Finset Nat)

/-- The sum of the durations of the completed handlers of a CPU. -/
def durations (cpu : Nat) (tr : List Event) : UInt64 :=
  ((nest m.view cpu tr).completed.map fun i => i.2 - i.1).sum

/-- An entry under the key that is stored: its CPU and its time. -/
def writes (key : Nat) (pre : List Event) (e : Event) : Option (Nat × UInt64) :=
  (m.view e).bind fun
    | .opens cpu k time =>
      if k = key ∧ (m.start ((machine forksAddr c).exec pre)).accepts (m.room e) key then
        some (cpu, time)
      else none
    | .closes _ _ _ => none

/-- The entry that an exit counts from. -/
def countsFrom (key : Nat) (pre : List Event) (e : Event) : Option (Nat × UInt64) :=
  if m.keeps ((machine forksAddr c).exec pre) e then recent (m.writes forksAddr c key) pre
  else none

/-- A property of the end of a handler. -/
def AtExit (P : Nat → Nat → UInt64 → Prop) (e : Event) : Prop :=
  ∀ b ∈ m.view e, match b with
    | .opens _ _ _ => True
    | .closes cpu key now => P cpu key now

instance (P : Nat → Nat → UInt64 → Prop) [∀ cpu key now, Decidable (P cpu key now)] (e : Event) :
    Decidable (m.AtExit P e) :=
  @Option.decidableForallMem _ _ (fun b => match b with
    | .opens _ _ _ => inferInstanceAs (Decidable True)
    | .closes cpu key now => inferInstanceAs (Decidable (P cpu key now))) _

/-- An exit at `now` counts from `entry`; if it cannot count, then the handler took no time. -/
def CountsOwn (entry : Nat × UInt64) (now : UInt64) : Option (Nat × UInt64) → Prop
  | some w => w = entry
  | none => now = entry.2

instance (entry : Nat × UInt64) (now : UInt64) (from? : Option (Nat × UInt64)) :
    Decidable (CountsOwn entry now from?) :=
  match from? with
  | some w => inferInstanceAs (Decidable (w = entry))
  | none => inferInstanceAs (Decidable (now = entry.2))

/-- All CPUs are in `K`, and the handlers of each are properly bracketed. -/
structure ValidOn (tr : List Event) : Prop where
  within : ∀ e ∈ tr, ∀ b ∈ m.view e, b.cpu ∈ K
  bracketed : Throughout (Bracketed m.view) tr

/-- The accumulated time is the sum of the durations over all CPUs. -/
def TotalRight (tr : List Event) : Prop :=
  m.total ((machine forksAddr c).exec tr) = ∑ cpu ∈ K, m.durations cpu tr

instance (tr : List Event) : Decidable (m.TotalRight forksAddr c K tr) :=
  inferInstanceAs (Decidable (_ = _))

/-- No duration goes from an entry on one CPU to the exit on another. -/
def Unmixed (pre : List Event) (e : Event) : Prop :=
  m.AtExit (fun cpu key _ => ∀ w ∈ m.countsFrom forksAddr c key pre e, w.1 = cpu) e

instance (pre : List Event) (e : Event) : Decidable (m.Unmixed forksAddr c pre e) :=
  inferInstanceAs (Decidable (m.AtExit _ e))

/-- The event leaves the total right and mixes nothing. -/
def Counted (pre : List Event) (e : Event) : Prop :=
  m.TotalRight forksAddr c K (pre ++ [e]) ∧ m.Unmixed forksAddr c pre e

/-- The exit counts from the entry of its own handler. -/
def Own (pre : List Event) (e : Event) : Prop :=
  m.AtExit (fun cpu key now => ∀ h ∈ (nest m.view cpu pre).opened.head?,
    CountsOwn (cpu, h.2) now (m.countsFrom forksAddr c key pre e)) e

instance (pre : List Event) (e : Event) : Decidable (m.Own forksAddr c pre e) :=
  inferInstanceAs (Decidable (m.AtExit _ e))

variable {m forksAddr c K} {pre tr : List Event} {e : Event} {cpu key : Nat} {time now : UInt64}

theorem atExit_closes {P : Nat → Nat → UInt64 → Prop} (hv : m.view e = some (.closes cpu key now)) :
    m.AtExit P e ↔ P cpu key now := by
  constructor
  · intro h
    exact h _ hv
  · intro h b hb
    rw [hv] at hb
    cases hb
    exact h

theorem atExit_of_not {P : Nat → Nat → UInt64 → Prop}
    (hv : ∀ cpu key now, m.view e ≠ some (.closes cpu key now)) : m.AtExit P e := by
  intro b hb
  cases b with
  | opens _ _ _ => trivial
  | closes cpu key now => exact absurd hb (hv cpu key now)

/-- The table holds the time of the latest entry that was stored under the key. -/
theorem lookup_start (key : Nat) (tr : List Event) :
    (m.start ((machine forksAddr c).exec tr)).lookup key =
      (recent (m.writes forksAddr c key) tr).map Prod.snd := by
  induction tr using List.reverseRecOn with
  | nil =>
    rw [Machine.exec_nil]
    show (m.start (initial c)).lookup key = _
    rw [(m.initially c).1]
    rfl
  | append_singleton pre e ih =>
    rw [exec_snoc]
    cases hv : m.view e with
    | none =>
      rw [(m.other hv).1, recent_snoc_none, ih]
      rw [writes, hv]
      rfl
    | some b =>
      cases b with
      | closes cpu k now =>
        rw [(m.closes hv).1, recent_snoc_none, ih]
        rw [writes, hv]
        rfl
      | opens cpu k time =>
        have hwrites : m.writes forksAddr c key pre e =
            if k = key ∧ (m.start ((machine forksAddr c).exec pre)).accepts (m.room e) key then
              some (cpu, time)
            else none := by
          rw [writes, hv]
          rfl
        rw [(m.opens hv).1]
        by_cases hk : k = key
        · subst hk
          rw [BpfMap.lookup_update_self]
          -- a refused entry was not there before either
          cases hroom : (m.start ((machine forksAddr c).exec pre)).accepts (m.room e) k with
          | true =>
            rw [if_pos ⟨rfl, hroom⟩] at hwrites
            rw [recent_snoc_some hwrites]
            rfl
          | false =>
            rw [hroom, if_neg (fun h => Bool.false_ne_true h.2)] at hwrites
            rw [recent_snoc_none hwrites, ← ih, BpfMap.lookup_of_not_accepts hroom]
            rfl
        · rw [if_neg fun h => hk h.1] at hwrites
          rw [recent_snoc_none hwrites, BpfMap.lookup_update_of_ne _ _ _ (Ne.symm hk), ih]

theorem total_closes (hv : m.view e = some (.closes cpu key now)) :
    m.total ((machine forksAddr c).exec (pre ++ [e])) =
      m.total ((machine forksAddr c).exec pre) +
        ((m.countsFrom forksAddr c key pre e).map fun w => now - w.2).getD 0 := by
  rw [exec_snoc, (m.closes hv).2, lookup_start, countsFrom]
  split
  · rw [Option.map_map]
    rfl
  · rfl

theorem durations_closes (hv : m.view e = some (.closes cpu key now))
    (hopened : (nest m.view cpu pre).opened.head? = some (key, time)) (k : Nat) :
    m.durations k (pre ++ [e]) = m.durations k pre + if cpu = k then now - time else 0 := by
  rw [durations, completed_closes hv hopened, durations, List.map_append, List.sum_append]
  split <;> simp

theorem durations_of_not (hv : ∀ cpu key now, m.view e ≠ some (.closes cpu key now)) (k : Nat) :
    m.durations k (pre ++ [e]) = m.durations k pre := by
  cases h : m.view e with
  | none => rw [durations, durations, nest_snoc_skip h]
  | some b =>
    cases b with
    | opens cpu key time => rw [durations, durations, completed_opens h]
    | closes cpu key now => exact absurd h (hv cpu key now)

theorem totalRight_of_not (hv : ∀ cpu key now, m.view e ≠ some (.closes cpu key now))
    (hright : m.TotalRight forksAddr c K pre) : m.TotalRight forksAddr c K (pre ++ [e]) := by
  have hsame : m.total ((machine forksAddr c).exec (pre ++ [e])) =
      m.total ((machine forksAddr c).exec pre) := by
    rw [exec_snoc]
    cases h : m.view e with
    | none => exact (m.other h).2
    | some b =>
      cases b with
      | opens cpu key time => exact (m.opens h).2
      | closes cpu key now => exact absurd h (hv cpu key now)
  rw [TotalRight, hsame, hright]
  exact Finset.sum_congr rfl fun k _ => (durations_of_not hv k).symm

/-- What an exit adds is the duration, from the entry on its CPU, exactly when it counts from it. -/
theorem countsOwn_iff {from? : Option (Nat × UInt64)} :
    (((from?.map fun w => now - w.2).getD 0 = now - time) ∧ ∀ w ∈ from?, w.1 = cpu) ↔
      CountsOwn (cpu, time) now from? := by
  cases from? with
  | none =>
    show (0 = now - time ∧ _) ↔ now = time
    rw [eq_comm, sub_eq_zero]
    simp
  | some w =>
    show (now - w.2 = now - time ∧ _) ↔ w = (cpu, time)
    rw [sub_right_inj, Prod.ext_iff]
    simp [and_comm]

/-- One event keeps the sum right, and mixes nothing, exactly when an exit counts from its own
entry. -/
theorem totalRight_step (hK : ∀ b ∈ m.view e, b.cpu ∈ K) (hb : Bracketed m.view pre e)
    (hright : m.TotalRight forksAddr c K pre) :
    m.Counted forksAddr c K pre e ↔ m.Own forksAddr c pre e := by
  by_cases hv : ∃ cpu key now, m.view e = some (.closes cpu key now)
  · obtain ⟨cpu, key, now, hv⟩ := hv
    obtain ⟨time, hopened⟩ := hb.opened hv
    have hcpu : cpu ∈ K := hK _ hv
    -- both sides grow by one summand
    have htotal : m.TotalRight forksAddr c K (pre ++ [e]) ↔
        ((m.countsFrom forksAddr c key pre e).map fun w => now - w.2).getD 0 = now - time := by
      rw [TotalRight, total_closes hv, hright]
      simp only [durations_closes hv hopened, Finset.sum_add_distrib, Finset.sum_ite_eq,
        if_pos hcpu]
      exact add_right_inj _
    rw [Counted, htotal, Unmixed, atExit_closes hv, Own, atExit_closes hv, countsOwn_iff, hopened]
    simp
  · have hv : ∀ cpu key now, m.view e ≠ some (.closes cpu key now) :=
      fun cpu key now h => hv ⟨cpu, key, now, h⟩
    exact ⟨fun _ => atExit_of_not hv, fun _ => ⟨totalRight_of_not hv hright, atExit_of_not hv⟩⟩

/-- The rule for one kind of handlers. -/
theorem ValidOn.right_iff (h : m.ValidOn K tr) :
    Throughout (m.Counted forksAddr c K) tr ↔ Throughout (m.Own forksAddr c) tr := by
  have hinit : m.TotalRight forksAddr c K [] := by
    rw [TotalRight, Machine.exec_nil]
    show m.total (initial c) = _
    rw [(m.initially c).2]
    exact (Finset.sum_eq_zero fun _ _ => rfl).symm
  apply throughout_congr hinit
  · intro pre e hright
    exact hright.1
  · intro pre e hp hright
    have hmem : e ∈ tr := hp.subset (List.mem_append_right pre (List.mem_singleton_self e))
    exact totalRight_step (h.within e hmem) (h.bracketed pre e hp) hright

end Meter

/-- For every number of CPUs and every interleaving of their handlers: both accumulated times are
the sums of the durations, and no duration mixes two CPUs, in all states of a run exactly when every
exit counts from the entry of its own handler.  It does unless another CPU has entered the same
vector, or irq number, in the meantime, or a map has refused an element. -/
theorem interrupt_times (forksAddr : UInt64) (c : SarCtrl) (K : Finset Nat) (tr : List Event)
    (hs : softirq.ValidOn K tr) (hi : hardirq.ValidOn K tr) :
    Throughout (fun pre e => softirq.Counted forksAddr c K pre e ∧
        hardirq.Counted forksAddr c K pre e) tr ↔
      Throughout (fun pre e => softirq.Own forksAddr c pre e ∧ hardirq.Own forksAddr c pre e)
        tr := by
  rw [throughout_and, throughout_and, hs.right_iff, hi.right_iff]

/-- A hard irq inside a softirq of CPU 0, and another softirq of CPU 1 at the same time. -/
def apartHandlers : List Event :=
  [.softirqEntry 0 3 10 true, .softirqEntry 1 1 12 true, .irqHandlerEntry 0 40 15 true,
    .irqHandlerExit 0 40 18, .softirqExit 0 3 30 true, .softirqExit 1 1 40 true]

theorem interrupt_times_apart :
    Throughout (fun pre e => softirq.Counted 0 ⟨true, false, 0⟩ {0, 1} pre e ∧
        hardirq.Counted 0 ⟨true, false, 0⟩ {0, 1} pre e) apartHandlers :=
  (interrupt_times 0 ⟨true, false, 0⟩ {0, 1} apartHandlers ⟨by decide, by decide⟩
    ⟨by decide, by decide⟩).mpr (by decide)

/-- Both CPUs are in the handler of one vector. -/
def sameVector : List Event :=
  [.softirqEntry 0 3 10 true, .softirqEntry 1 3 20 true, .softirqExit 0 3 30 true]

/-- Both CPUs handle one interrupt number. -/
def sameIrq : List Event :=
  [.irqHandlerEntry 0 40 10 true, .irqHandlerEntry 1 40 20 true, .irqHandlerExit 0 40 30]

/-- The exit on CPU 0 counts from the entry on CPU 1. -/
theorem same_vector_mixed :
    (softirq.ValidOn {0, 1} sameVector ∧ hardirq.ValidOn {0, 1} sameVector ∧
      ¬softirq.TotalRight 0 ⟨true, false, 0⟩ {0, 1} sameVector ∧
      ¬Throughout (softirq.Unmixed 0 ⟨true, false, 0⟩) sameVector) ∧
    (softirq.ValidOn {0, 1} sameIrq ∧ hardirq.ValidOn {0, 1} sameIrq ∧
      ¬hardirq.TotalRight 0 ⟨true, false, 0⟩ {0, 1} sameIrq ∧
      ¬Throughout (hardirq.Unmixed 0 ⟨true, false, 0⟩) sameIrq) := by
  refine ⟨⟨⟨by decide, by decide⟩, ⟨by decide, by decide⟩, by decide, by decide⟩,
    ⟨⟨by decide, by decide⟩, ⟨by decide, by decide⟩, by decide, by decide⟩⟩

end CpuSubsystem.Sar
