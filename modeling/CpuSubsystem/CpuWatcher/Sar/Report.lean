import CpuSubsystem.CpuWatcher.Sar.Model
import CpuSubsystem.Lib.CInt

/-!
# System activity, user side (`print_all` in `cpu_watcher.c`)

A call reports what the counters have gained since the call before. The time of day is left out,
and the deltas are reported as they are computed, before they are divided by their unit or printed
as a percentage. `utRaw` is the conversion of ticks to nanoseconds, which goes through `double`.
-/

namespace CpuSubsystem.Sar

/-- `SAR_WACTHER`. -/
abbrev sarWatcher : Int := 10

/-- The counters at the call before: the variables `proc` to `tick_user`. -/
structure Readings where
  proc : UInt64
  sched : UInt64
  irqtime : UInt64
  softirq : UInt64
  idle : UInt64
  ktTime : UInt64
  utTime : UInt64
  tickUser : UInt64
deriving DecidableEq, Repr

structure Deltas where
  proc : UInt64
  sched : UInt64
  runqlen : UInt32
  dtairqtime : UInt64
  dtasoftirq : UInt64
  dtaidle : UInt64
  dtaKT : UInt64
  dtaSysc : UInt64
  dtaUTRaw : UInt64
  dtaSys : UInt64
deriving DecidableEq, Repr

inductive Line where
  | percentHeader
  | timeHeader
  | row (percent : Bool) (d : Deltas)
deriving DecidableEq, Repr

/-- How a call ends: it returns, or its behaviour is undefined (the `abs` of the least `int`). -/
inductive Outcome where
  | returned (err : Int)
  | undefined
deriving DecidableEq, Repr

/-- The variables of the process: the readings and `env.enable_proc`. -/
structure Printer where
  readings : Readings
  enableProc : Bool
deriving DecidableEq, Repr

def Printer.initial : Printer := ⟨⟨0, 0, 0, 0, 0, 0, 0, 0⟩, false⟩

/-- The head of the table is printed once for each start of the tool. -/
def header (c : SarCtrl) : SarCtrl × List Line :=
  if c.prevWatcher = sarWatcher + 1 then
    ({ c with prevWatcher := sarWatcher + 2 }, [.percentHeader])
  else if c.prevWatcher = sarWatcher then
    ({ c with prevWatcher := sarWatcher + 2 }, [.timeHeader])
  else (c, [])

/-- `abs`, whose result is not an `int` for the least `int`. -/
def abs (x : Int) : Option Int := if x = -2147483648 then none else some x.natAbs

/-- `abs(dtaUT - dtaUTRaw)`: the difference of two unsigned words is passed as an `int`, and the
result is converted to an unsigned word again. -/
def dtaSysc (dtaUT dtaUTRaw : UInt64) : Option UInt64 :=
  (abs (toInt (dtaUT - dtaUTRaw).toNat)).map UInt64.ofInt

/-- The lookups that come before the first one that can fail. -/
def Readings.begin (r : Readings) (s : State) : Readings :=
  { r with
    proc := (s.countMap.lookup 1).getD 0
    sched := (s.countMap.lookup 0).getD 0
    irqtime := s.irqLastTime }

/-- All lookups; the one in the hash table leaves `softirq` as it was if it finds nothing. -/
def Readings.read (r : Readings) (s : State) : Readings :=
  { r.begin s with
    softirq := (s.softirqLastTime.lookup 0).getD r.softirq
    idle := s.idleLastTime
    ktTime := s.ktLastTime
    utTime := s.utLastTime
    tickUser := s.tickUser }

/-- `old` are the readings at the call before, `new` those of this one. -/
def deltas (utRaw : UInt64 → UInt64) (old new : Readings) (runqlen : UInt32) : Option Deltas :=
  let dtaKT := new.ktTime - old.ktTime
  let dtaUT := new.utTime - old.utTime
  let dtaUTRaw := utRaw (new.tickUser - old.tickUser)
  (dtaSysc dtaUT dtaUTRaw).map fun dtaSysc =>
    { proc := new.proc - old.proc
      sched := new.sched - old.sched
      runqlen := runqlen
      dtairqtime := new.irqtime - old.irqtime
      dtasoftirq := new.softirq - old.softirq
      dtaidle := new.idle - old.idle
      dtaKT := dtaKT
      dtaSysc := dtaSysc
      dtaUTRaw := dtaUTRaw
      dtaSys := dtaKT + dtaSysc }

/-- The part of `print_all` after the head of the table. -/
def report (utRaw : UInt64 → UInt64) (s : State) (p : Printer) : Printer × List Line × Outcome :=
  match s.softirqLastTime.lookup 0, deltas utRaw p.readings (p.readings.read s) s.runqlen with
  | none, _ => ({ p with readings := p.readings.begin s }, [], .returned (-1))
  | some _, none => ({ p with readings := p.readings.read s }, [], .undefined)
  | some _, some d =>
    (⟨p.readings.read s, true⟩, if p.enableProc then [.row s.sarCtrlMap.percent d] else [],
      .returned 0)

def printAll (utRaw : UInt64 → UInt64) (s : State) (p : Printer) :
    State × Printer × List Line × Outcome :=
  if s.sarCtrlMap.sarFunc then
    let (c, head) := header s.sarCtrlMap
    let (p, row, outcome) := report utRaw s p
    ({ s with sarCtrlMap := c }, p, head ++ row, outcome)
  else (s, p, [], .returned 0)

section Widths

variable {a b : UInt64}

/-- The difference of two words, as an `int`, is that of their values. -/
theorem toInt_sub : toInt (a - b).toNat = toInt (a.toNat - b.toNat) := by
  have hdvd : 2 ^ 32 ∣ 2 ^ 64 := Nat.pow_dvd_pow 2 (by decide)
  have hsub : ((a - b).toNat : Int) = ((a.toNat : Int) - b.toNat) % (2 ^ 64 : Nat) := by
    rw [UInt64.toNat_sub]
    have hb := b.toNat_lt
    omega
  unfold toInt
  rw [← Int.bmod_bmod_of_dvd hdvd, hsub, Int.emod_bmod, Int.bmod_bmod_of_dvd hdvd]

theorem toNat_ofInt_natCast {n : Nat} (hn : n < 2 ^ 64) : (UInt64.ofInt (n : Int)).toNat = n := by
  unfold UInt64.ofInt
  rw [UInt64.toNat_ofNat']
  omega

/-- A difference that is an `int`, but not the least one, is taken as it is. -/
theorem dtaSysc_small (h : ((a.toNat : Int) - b.toNat).natAbs < 2 ^ 31) :
    dtaSysc a b = some (UInt64.ofInt ((a.toNat : Int) - b.toNat).natAbs) := by
  have hself := toInt_eq_self (x := (a.toNat : Int) - b.toNat) (by omega) (by omega)
  unfold dtaSysc abs
  rw [toInt_sub, hself, if_neg (by omega), Option.map_some]

/-- Where `abs` is defined, its result is below `2^31`. -/
theorem dtaSysc_lt {c : UInt64} (h : dtaSysc a b = some c) : c.toNat < 2 ^ 31 := by
  obtain ⟨x, hx, rfl⟩ := Option.map_eq_some_iff.mp h
  have hbounds := toInt_bounds (a - b).toNat
  unfold abs at hx
  split at hx
  · cases hx
  · rename_i hleast
    rw [← Option.some.inj hx, toNat_ofInt_natCast (by omega)]
    omega

end Widths

section Calls

variable {utRaw : UInt64 → UInt64} {s s₁ s₂ : State} {p : Printer} {percent : Bool} {d : Deltas}

theorem row_not_in_header (c : SarCtrl) : Line.row percent d ∉ (header c).2 := by
  unfold header
  split
  · simp
  · split <;> simp

/-- A call that succeeds leaves its readings for the next one, which prints a row. -/
theorem report_returned (hret : (report utRaw s p).2.2 = .returned 0) :
    (report utRaw s p).1 = ⟨p.readings.read s, true⟩ := by
  unfold report at hret ⊢
  cases hsoft : s.softirqLastTime.lookup 0 with
  | none =>
    rw [hsoft] at hret
    cases hret
  | some q =>
    cases hd : deltas utRaw p.readings (p.readings.read s) s.runqlen with
    | none =>
      rw [hsoft, hd] at hret
      cases hret
    | some d => rfl

/-- The row of a call that is not the first one holds its deltas. -/
theorem report_row (hsoft : (s.softirqLastTime.lookup 0).isSome) (hp : p.enableProc = true) :
    .row percent d ∈ (report utRaw s p).2.1 ↔ percent = s.sarCtrlMap.percent ∧
      deltas utRaw p.readings (p.readings.read s) s.runqlen = some d := by
  obtain ⟨q, hq⟩ := Option.isSome_iff_exists.mp hsoft
  unfold report
  rw [hq]
  cases hd : deltas utRaw p.readings (p.readings.read s) s.runqlen with
  | none => simp
  | some d' => simp [hp, eq_comm]

theorem printAll_returned (hfunc : s.sarCtrlMap.sarFunc = true)
    (hret : (printAll utRaw s p).2.2.2 = .returned 0) :
    (printAll utRaw s p).2.1 = ⟨p.readings.read s, true⟩ := by
  unfold printAll at hret ⊢
  rw [if_pos hfunc] at hret ⊢
  exact report_returned hret

theorem printAll_row (hfunc : s.sarCtrlMap.sarFunc = true)
    (hsoft : (s.softirqLastTime.lookup 0).isSome) (hp : p.enableProc = true) :
    .row percent d ∈ (printAll utRaw s p).2.2.1 ↔ percent = s.sarCtrlMap.percent ∧
      deltas utRaw p.readings (p.readings.read s) s.runqlen = some d := by
  rw [← report_row hsoft hp]
  unfold printAll
  rw [if_pos hfunc]
  simp [row_not_in_header]

/-- The time of the user threads between two calls, less what the ticks say. -/
def excess (utRaw : UInt64 → UInt64) (s₁ s₂ : State) : Int :=
  (s₂.utLastTime.toNat - s₁.utLastTime.toNat) - (utRaw (s₂.tickUser - s₁.tickUser)).toNat

/-- What the report should say, where `kt` is the time of the kernel threads. -/
structure Exact (d : Deltas) (kt : Nat) (excess : Int) : Prop where
  sysc : d.dtaSysc.toNat = excess.natAbs
  sys : kt + excess.natAbs < 2 ^ 64 → d.dtaSys.toNat = kt + excess.natAbs

/-- The deltas of `print_all`, for counters that do not go back. -/
theorem deltas_exact_iff {old new : Readings} {runqlen : UInt32} {excess : Int}
    (hkt : old.ktTime ≤ new.ktTime) (hut : old.utTime ≤ new.utTime)
    (hexcess : excess =
      (new.utTime.toNat - old.utTime.toNat) - (utRaw (new.tickUser - old.tickUser)).toNat) :
    (∃ d, deltas utRaw old new runqlen = some d ∧
        Exact d (new.ktTime.toNat - old.ktTime.toNat) excess) ↔ excess.natAbs < 2 ^ 31 := by
  have hval : ((new.utTime - old.utTime).toNat : Int) = new.utTime.toNat - old.utTime.toNat := by
    rw [UInt64.toNat_sub_of_le _ _ hut]
    have hle := UInt64.le_iff_toNat_le.mp hut
    omega
  rw [← hval] at hexcess
  unfold deltas
  simp only [Option.map_eq_some_iff]
  constructor
  · rintro ⟨d, ⟨c, hc, rfl⟩, hexact⟩
    have hlt := dtaSysc_lt hc
    have hsysc : c.toNat = excess.natAbs := hexact.sysc
    omega
  · intro hsmall
    rw [hexcess] at hsmall ⊢
    have hnat := toNat_ofInt_natCast (Nat.lt_trans hsmall (by decide : 2 ^ 31 < 2 ^ 64))
    refine ⟨_, ⟨_, dtaSysc_small hsmall, rfl⟩, hnat, ?_⟩
    intro hsum
    rw [UInt64.toNat_add, hnat, UInt64.toNat_sub_of_le _ _ hkt, Nat.mod_eq_of_lt hsum]

/-- The second of two consecutive calls reports the exact deltas, exactly if `abs` gets a
difference that it can take as an `int`. -/
theorem sysc_exact_iff (hfunc₁ : s₁.sarCtrlMap.sarFunc = true)
    (hfunc₂ : s₂.sarCtrlMap.sarFunc = true) (hsoft : (s₂.softirqLastTime.lookup 0).isSome)
    (hret : (printAll utRaw s₁ p).2.2.2 = .returned 0) (hkt : s₁.ktLastTime ≤ s₂.ktLastTime)
    (hut : s₁.utLastTime ≤ s₂.utLastTime) :
    (∃ percent d, .row percent d ∈ (printAll utRaw s₂ (printAll utRaw s₁ p).2.1).2.2.1 ∧
        Exact d (s₂.ktLastTime.toNat - s₁.ktLastTime.toNat) (excess utRaw s₁ s₂)) ↔
      (excess utRaw s₁ s₂).natAbs < 2 ^ 31 := by
  rw [printAll_returned hfunc₁ hret]
  have hdeltas : (∃ d, deltas utRaw (p.readings.read s₁) ((p.readings.read s₁).read s₂)
      s₂.runqlen = some d ∧ Exact d _ (excess utRaw s₁ s₂)) ↔ _ := deltas_exact_iff hkt hut rfl
  rw [← hdeltas]
  constructor
  · rintro ⟨percent, d, hrow, hexact⟩
    exact ⟨d, ((printAll_row hfunc₂ hsoft rfl).mp hrow).2, hexact⟩
  · rintro ⟨d, hd, hexact⟩
    exact ⟨_, d, (printAll_row hfunc₂ hsoft rfl).mpr ⟨rfl, hd⟩, hexact⟩

/-- Whole seconds are converted exactly: 99 ticks are one. -/
def ticksToNs (ticks : UInt64) : UInt64 := ticks / 99 * 1000000000

/-- The counters of the threads and of the ticks. -/
def counted (ktTime utTime tickUser : UInt64) : State :=
  { initial ⟨true, false, sarWatcher⟩ with
    softirqLastTime := BpfMap.empty.store 0 0
    ktLastTime := ktTime
    utLastTime := utTime
    tickUser := tickUser }

theorem sysc_exact_iff_oneSecond :
    (∃ percent d, .row percent d ∈ (printAll ticksToNs (counted 500 2000000000 99)
        (printAll ticksToNs (counted 0 0 0) Printer.initial).2.1).2.2.1 ∧
      Exact d 500 (excess ticksToNs (counted 0 0 0) (counted 500 2000000000 99))) ↔
    (excess ticksToNs (counted 0 0 0) (counted 500 2000000000 99)).natAbs < 2 ^ 31 :=
  sysc_exact_iff rfl rfl rfl (by decide) (by decide) (by decide)

/-- User threads that ran for 4 seconds while the ticks saw 1: the 3 seconds are no `int`. -/
theorem sysc_truncated :
    (∃ d, .row false d ∈ (printAll ticksToNs (counted 0 4000000000 99)
        (printAll ticksToNs (counted 0 0 0) Printer.initial).2.1).2.2.1 ∧
      d.dtaSysc = 1294967296) ∧
    excess ticksToNs (counted 0 0 0) (counted 0 4000000000 99) = 3000000000 := by
  refine ⟨⟨⟨0, 0, 0, 0, 0, 0, 0, 1294967296, 1000000000, 1294967296⟩, ?_, rfl⟩, rfl⟩
  decide

end Calls

end CpuSubsystem.Sar
