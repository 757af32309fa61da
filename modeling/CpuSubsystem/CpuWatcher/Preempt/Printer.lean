import CpuSubsystem.CpuWatcher.Preempt.Model
import CpuSubsystem.Lib.CInt
import CpuSubsystem.Lib.Outcome

/-!
# Preemption times, user side (`preempt_print` and the loop of `main` in `cpu_watcher.c`)

A pass of the loop polls the ring buffer, which calls `preempt_print` for each record, and prints
the average. The time of day is left out.
-/

namespace CpuSubsystem.Preempt

/-- The variables of the process; the counter is not negative. -/
structure Printer where
  preemptCount : Nat
  sumPreemptTime : Int
  preemptStartPrint : Bool
deriving DecidableEq, Repr

def Printer.initial : Printer := ⟨0, 0, false⟩

inductive Line where
  | record (e : PreemptEvent)
  | average (time : Int)
  | tableHeader
deriving DecidableEq

/-- What ends the process, or makes its behaviour undefined. -/
inductive Fault where
  | overflow
  | divideError
deriving DecidableEq, Repr

/-- The sum is an `int`, to which a 64-bit duration is added. -/
def preemptPrint (p : Printer) (e : PreemptEvent) : Except Fault Printer :=
  if p.preemptCount < 2 ^ 31 - 1 then
    .ok { p with
      preemptCount := p.preemptCount + 1
      sumPreemptTime := toInt (p.sumPreemptTime + e.duration.toNat) }
  else .error .overflow

/-- The line with the average; the first pass has none. -/
def averageLine (p : Printer) : Except Fault (List Line) :=
  if p.preemptStartPrint then
    if p.preemptCount = 0 then .error .divideError
    else .ok [.average (p.sumPreemptTime.tdiv p.preemptCount)]
  else .ok []

/-- A pass of the loop; `batch` are the records that the poll delivers. -/
def pass (p : Printer) (batch : List PreemptEvent) : Except Fault (Printer × List Line) := do
  let p ← batch.foldlM preemptPrint p
  let lines ← averageLine p
  return (⟨0, 0, true⟩, batch.map .record ++ lines ++ [.tableHeader])

/-- The passes from the start of the process, and all that they print. -/
def passes (batches : List (List PreemptEvent)) : Except Fault (Printer × List Line) :=
  batches.foldlM
    (fun t batch => (pass t.1 batch).map fun r => (r.1, t.2 ++ r.2)) (Printer.initial, [])

def Line.averageTime : Line → Option Int
  | .average time => some time
  | _ => none

/-- The sum of the durations, which the source keeps in an `int`. -/
def total (batch : List PreemptEvent) : Nat := (batch.map fun e => e.duration.toNat).sum

/-- The integer mean of the durations. -/
def mean (batch : List PreemptEvent) : Int := (total batch / batch.length : Nat)

variable {p : Printer} {batch : List PreemptEvent} {batches : List (List PreemptEvent)}
  {e : PreemptEvent}

theorem total_snoc : total (batch ++ [e]) = total batch + e.duration.toNat := by
  simp [total]

/-- The callbacks of a poll succeed if they can count the records. -/
theorem batch_eq_ok {start : Bool} : batch.foldlM preemptPrint ⟨0, 0, start⟩ = .ok p ↔
    batch.length < 2 ^ 31 ∧ p = ⟨batch.length, toInt (total batch), start⟩ := by
  induction batch using List.reverseRecOn generalizing p with
  | nil =>
    constructor
    · intro h
      exact ⟨by decide, (Except.ok.inj h).symm⟩
    · rintro ⟨-, rfl⟩
      rfl
  | append_singleton batch e ih =>
    have hsum : toInt (toInt (total batch) + e.duration.toNat) = toInt (total (batch ++ [e])) := by
      rw [total_snoc, Nat.cast_add]
      exact Int.bmod_add_bmod
    rw [foldlM_snoc_eq_ok, List.length_append, List.length_singleton]
    constructor
    · rintro ⟨q, hq, hstep⟩
      obtain ⟨hlen, rfl⟩ := ih.mp hq
      unfold preemptPrint at hstep
      split at hstep
      · rename_i hroom
        change batch.length < 2 ^ 31 - 1 at hroom
        rw [← Except.ok.inj hstep]
        refine ⟨by omega, ?_⟩
        rw [hsum]
      · cases hstep
    · rintro ⟨hlen, rfl⟩
      refine ⟨_, ih.mpr ⟨by omega, rfl⟩, ?_⟩
      have hroom : batch.length < 2 ^ 31 - 1 := by omega
      unfold preemptPrint
      rw [if_pos hroom, hsum]

/-- The quotient of the narrowed sum is the mean only if the sum was not narrowed. -/
theorem mean_exact_iff (hne : batch ≠ []) (hlen : batch.length < 2 ^ 31) :
    (toInt (total batch)).tdiv batch.length = mean batch ↔ total batch < 2 ^ 31 := by
  have hpos : 0 < batch.length := List.length_pos_iff.mpr hne
  unfold mean
  generalize total batch = s at *
  generalize batch.length = n at *
  constructor
  · intro heq
    by_contra hbig
    have hbounds := toInt_bounds s
    have hmod := toInt_emod s
    have hlt := Nat.lt_mul_div_succ s hpos
    have hle : (s / n : Nat) * (n : Int) ≤ toInt s := by
      rcases Int.le_total 0 (toInt s) with hpos' | hneg
      · rw [← heq, Int.tdiv_eq_ediv_of_nonneg hpos']
        exact Int.ediv_mul_le _ (by omega)
      · -- a sum that turns negative has no positive quotient, but the mean is positive
        have hquot := Int.tdiv_nonneg (a := -toInt s) (b := n) (by omega) (by omega)
        rw [Int.neg_tdiv, heq] at hquot
        have hmean : 0 < s / n := Nat.div_pos (by omega) hpos
        omega
    have hmul : ((s / n : Nat) : Int) * n + n = ((n * (s / n + 1) : Nat) : Int) := by
      rw [Nat.mul_comm n, Nat.add_mul, Nat.one_mul]
      push_cast
      rfl
    omega
  · intro hsmall
    rw [toInt_eq_self (by omega) (by omega)]
    rfl

/-- There is an average in all passes but the first one, of at least one record. -/
theorem averageLine_eq_ok {n : Nat} {sum : Int} {start : Bool} {lines : List Line} :
    averageLine ⟨n, sum, start⟩ = .ok lines ↔
      (start = true → n ≠ 0) ∧ lines = if start then [.average (sum.tdiv n)] else [] := by
  unfold averageLine
  cases start with
  | false => simp [eq_comm]
  | true =>
    by_cases hzero : n = 0
    · simp [hzero]
    · simp [hzero, eq_comm]

theorem pass_eq_ok {start : Bool} {q : Printer} {lines : List Line} :
    pass ⟨0, 0, start⟩ batch = .ok (q, lines) ↔
      batch.length < 2 ^ 31 ∧ (start = true → batch ≠ []) ∧ q = ⟨0, 0, true⟩ ∧
      lines = batch.map .record ++
        (if start then [.average ((toInt (total batch)).tdiv batch.length)] else []) ++
        [.tableHeader] := by
  unfold pass
  rw [bind_eq_ok]
  constructor
  · rintro ⟨p, hp, h⟩
    obtain ⟨hlen, rfl⟩ := batch_eq_ok.mp hp
    obtain ⟨average, haverage, h⟩ := bind_eq_ok.mp h
    obtain ⟨hcount, rfl⟩ := averageLine_eq_ok.mp haverage
    obtain ⟨rfl, rfl⟩ := Prod.mk.inj (Except.ok.inj h)
    exact ⟨hlen, fun hs hb => hcount hs (List.length_eq_zero_iff.mpr hb), rfl, rfl⟩
  · rintro ⟨hlen, hne, rfl, rfl⟩
    have haverage : averageLine ⟨batch.length, toInt (total batch), start⟩ =
        .ok (if start then [.average ((toInt (total batch)).tdiv batch.length)] else []) :=
      averageLine_eq_ok.mpr ⟨fun hs hb => hne hs (List.length_eq_zero_iff.mp hb), rfl⟩
    exact ⟨_, batch_eq_ok.mpr ⟨hlen, rfl⟩, bind_eq_ok.mpr ⟨_, haverage, rfl⟩⟩

/-- The averages in the lines of a pass. -/
theorem averages_of_pass {start : Bool} {q : Printer} {lines : List Line}
    (h : pass ⟨0, 0, start⟩ batch = .ok (q, lines)) :
    lines.filterMap Line.averageTime =
      if start then [(toInt (total batch)).tdiv batch.length] else [] := by
  obtain ⟨-, -, -, rfl⟩ := pass_eq_ok.mp h
  have hrecords : (batch.map Line.record).filterMap Line.averageTime = [] := by
    rw [List.filterMap_map]
    exact List.filterMap_eq_nil_iff.mpr fun e _ => rfl
  rw [List.filterMap_append, List.filterMap_append, hrecords]
  cases start <;> rfl

theorem passes_snoc_eq_ok {q : Printer} {lines : List Line} :
    passes (batches ++ [batch]) = .ok (q, lines) ↔
      ∃ p before new, passes batches = .ok (p, before) ∧ pass p batch = .ok (q, new) ∧
        lines = before ++ new := by
  unfold passes
  rw [foldlM_snoc_eq_ok]
  constructor
  · rintro ⟨⟨p, before⟩, hp, h⟩
    cases hnew : pass p batch with
    | error f => simp [hnew, Except.map] at h
    | ok r =>
      simp only [hnew, Except.map, Except.ok.injEq, Prod.mk.injEq] at h
      exact ⟨p, before, r.2, hp, by rw [hnew, ← h.1], h.2.symm⟩
  · rintro ⟨p, before, new, hp, hnew, rfl⟩
    exact ⟨(p, before), hp, by simp [hnew, Except.map]⟩

/-- The variables after any number of passes: all records are accounted for. -/
theorem passes_printer {q : Printer} {lines : List Line} (h : passes batches = .ok (q, lines)) :
    q = ⟨0, 0, !batches.isEmpty⟩ := by
  induction batches using List.reverseRecOn generalizing q lines with
  | nil =>
    cases h
    rfl
  | append_singleton batches batch ih =>
    obtain ⟨p, before, new, hp, hnew, -⟩ := passes_snoc_eq_ok.mp h
    rw [ih hp] at hnew
    simp [(pass_eq_ok.mp hnew).2.2.1]

/-- The process goes on, and the averages that it prints are those of the polls after the first
one. -/
def AveragesRight (batches : List (List PreemptEvent)) : Prop :=
  ∃ p lines, passes batches = .ok (p, lines) ∧
    lines.filterMap Line.averageTime = batches.tail.map mean

/-- The records of a poll can be counted. -/
def Countable (batch : List PreemptEvent) : Prop := batch.length < 2 ^ 31

/-- The poll delivers records, and their durations have a sum that is an `int`. -/
def Averageable (batch : List PreemptEvent) : Prop := batch ≠ [] ∧ total batch < 2 ^ 31

/-- One more poll. -/
theorem averagesRight_snoc : AveragesRight (batches ++ [batch]) ↔
    AveragesRight batches ∧ Countable batch ∧ (batches ≠ [] → Averageable batch) := by
  constructor
  · rintro ⟨q, lines, hrun, hright⟩
    obtain ⟨p, before, new, hp, hnew, rfl⟩ := passes_snoc_eq_ok.mp hrun
    rw [passes_printer hp] at hnew
    have hlast := averages_of_pass hnew
    obtain ⟨hlen, hne, -⟩ := pass_eq_ok.mp hnew
    rw [List.filterMap_append, hlast] at hright
    cases batches with
    | nil =>
      cases hp
      exact ⟨⟨_, [], rfl, rfl⟩, hlen, fun h => absurd rfl h⟩
    | cons first rest =>
      rw [List.cons_append, List.tail_cons, List.map_append] at hright
      simp only [List.isEmpty_cons, Bool.not_false, if_true, List.map_cons, List.map_nil] at hright
      obtain ⟨hbefore, hmean⟩ := List.append_inj' hright (by simp)
      have hne' := hne rfl
      exact ⟨⟨p, before, hp, hbefore⟩, hlen, fun _ =>
        ⟨hne', (mean_exact_iff hne' hlen).mp (List.cons.inj hmean).1⟩⟩
  · rintro ⟨⟨p, before, hp, hbefore⟩, hlen, haverage⟩
    have hnonempty : (!batches.isEmpty) = true → batches ≠ [] := by simp
    have hnew : pass ⟨0, 0, !batches.isEmpty⟩ batch = .ok (⟨0, 0, true⟩, _) :=
      pass_eq_ok.mpr ⟨hlen, fun hs => (haverage (hnonempty hs)).1, rfl, rfl⟩
    refine ⟨_, _, passes_snoc_eq_ok.mpr ⟨p, before, _, hp, passes_printer hp ▸ hnew, rfl⟩, ?_⟩
    rw [List.filterMap_append, averages_of_pass hnew, hbefore]
    cases batches with
    | nil => rfl
    | cons first rest =>
      obtain ⟨hne, hsmall⟩ := haverage (List.cons_ne_nil first rest)
      have hmean := (mean_exact_iff hne hlen).mpr hsmall
      simp [hmean]

theorem averagesRight_iff : AveragesRight batches ↔
    (∀ batch ∈ batches, Countable batch) ∧ ∀ batch ∈ batches.tail, Averageable batch := by
  induction batches using List.reverseRecOn with
  | nil =>
    constructor
    · intro _
      exact ⟨nofun, nofun⟩
    · intro _
      exact ⟨_, [], rfl, rfl⟩
  | append_singleton batches batch ih =>
    rw [averagesRight_snoc, ih]
    cases batches with
    | nil => simp
    | cons first rest =>
      simp only [List.cons_append, List.tail_cons, List.mem_cons, List.mem_append,
        List.not_mem_nil, or_false, ne_eq, reduceCtorEq, not_false_eq_true, forall_const]
      constructor
      · rintro ⟨⟨hcount, haverage⟩, hlen, hlast⟩
        refine ⟨?_, ?_⟩
        · rintro b (rfl | hb | rfl)
          · exact hcount b (Or.inl rfl)
          · exact hcount b (Or.inr hb)
          · exact hlen
        · rintro b (hb | rfl)
          · exact haverage b hb
          · exact hlast
      · rintro ⟨hcount, haverage⟩
        refine ⟨⟨?_, fun b hb => haverage b (Or.inl hb)⟩, hcount batch (Or.inr (Or.inr rfl)),
          haverage batch (Or.inr rfl)⟩
        rintro b (rfl | hb)
        · exact hcount b (Or.inl rfl)
        · exact hcount b (Or.inr (Or.inl hb))

end CpuSubsystem.Preempt
