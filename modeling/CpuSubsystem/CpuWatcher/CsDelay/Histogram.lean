import CpuSubsystem.CpuWatcher.CsDelay.Model
import CpuSubsystem.Lib.CInt
import CpuSubsystem.Lib.Outcome
import Mathlib.Data.Nat.Log

/-!
# The histogram of the time in `schedule` (`handle_event` and `histogram` in `cpu_watcher.c`)

The line that is printed for each record, the time of day and the heads of the columns are left out.
The counters start at 0 and only grow, so they are natural numbers below the range of `int`.
-/

namespace CpuSubsystem.CsDelay

/-- What the callback must not do: write behind `count[24]`, or take a counter beyond `int`. -/
inductive Fault where
  | outOfBounds (i : Nat)
  | overflow
deriving DecidableEq, Repr

/-- `int count[25]`. -/
abbrev Counts := Fin 25 → Nat

def noCounts : Counts := fun _ => 0

/-- The loop that halves `dly`. -/
def bucket (dly : Int) (i : Nat) : Nat :=
  if 1 < dly then bucket (dly.tdiv 2) (i + 1) else i
termination_by dly.toNat
decreasing_by
  rw [Int.tdiv_eq_ediv_of_nonneg (by omega)]
  omega

/-- `count[i]++`. -/
def increment (count : Counts) (i : Nat) : Except Fault Counts :=
  if h : i < 25 then
    if count ⟨i, h⟩ < 2 ^ 31 - 1 then
      .ok (Function.update count ⟨i, h⟩ (count ⟨i, h⟩ + 1))
    else .error .overflow
  else .error (.outOfBounds i)

/-- The element that a record is counted in. -/
def Delay.index (e : Delay) : Nat := bucket (toInt e.delay.toNat) 0

def handleEvent (count : Counts) (e : Delay) : Except Fault Counts := increment count e.index

/-- A printed line, with the number of its stars. -/
structure Row where
  low : Nat
  high : Nat
  count : Nat
  stars : Nat
deriving DecidableEq, Repr

/-- The exponents are not negative here, and the powers are small enough for a `double`. -/
def myPow (n : Nat) : Nat → Nat
  | 0 => 1
  | k + 1 => n * myPow n k

/-- How often `tmp` can be divided by 10 until it is below 10. -/
def decades (tmp : Nat) : Nat := if 10 ≤ tmp then decades (tmp / 10) + 1 else 0

/-- `per_len`; it is the index `max` that is compared with the numbers in `log10`. -/
def perLen (count : Counts) : Nat :=
  let log10 := fun d => (List.range 10).countP fun i => decades (count (Fin.ofNat 25 i)) = d
  10 ^ (List.range 10).foldl (fun max i => if max < log10 i then i else max) 0

/-- The number of stars that `print_hstgram` prints, each of them for `per_len` records. -/
def printHstgram (count : Counts) (i : Nat) : Nat := count (Fin.ofNat 25 i) / perLen count

def histogram (count : Counts) : List Row :=
  ⟨0, 1, count 0, printHstgram count 0⟩ ::
  ⟨2, 3, count 1, printHstgram count 1⟩ ::
  (List.range' 2 18).map fun i =>
    ⟨myPow 2 i, myPow 2 (i + 1) - 1, count (Fin.ofNat 25 i), printHstgram count i⟩

/-- The delay is in the range of the row. -/
def Row.holds (r : Row) (e : Delay) : Bool := r.low ≤ e.delay.toNat && e.delay.toNat ≤ r.high

/-- Every record is in one row, and every row says how many records are in its range. -/
structure Faithful (records : List Delay) (rows : List Row) : Prop where
  covered : ∀ e ∈ records, ∃! r, r ∈ rows ∧ r.holds e
  counted : ∀ r ∈ rows, r.count = records.countP r.holds

variable {count count' : Counts} {e : Delay} {i : Nat} {records : List Delay} {r : Row}

theorem bucket_eq_log (n i : Nat) : bucket n i = i + Nat.log 2 n := by
  induction n using Nat.strongRecOn generalizing i with
  | ind n ih =>
    unfold bucket
    by_cases hn : 1 < n
    · have htdiv : (n : Int).tdiv 2 = (n / 2 : Nat) := rfl
      rw [if_pos (by omega), htdiv, ih (n / 2) (by omega), Nat.log_div_base]
      have hpos := Nat.log_pos (b := 2) (by decide) hn
      omega
    · rw [if_neg (by omega), Nat.log_of_lt (by omega)]
      rfl

theorem index_eq_log (e : Delay) : e.index = Nat.log 2 (toInt e.delay.toNat).toNat := by
  unfold Delay.index
  rcases Int.le_total 0 (toInt e.delay.toNat) with hpos | hneg
  · obtain ⟨n, hn⟩ := Int.eq_ofNat_of_zero_le hpos
    rw [hn, bucket_eq_log, Nat.zero_add]
    rfl
  · -- a delay that turns negative is counted with the smallest ones
    unfold bucket
    rw [if_neg (by omega), Int.toNat_of_nonpos hneg]
    rfl

/-- A delay that is an `int` is counted by its logarithm. -/
theorem index_of_lt (he : e.delay.toNat < 2 ^ 31) : e.index = Nat.log 2 e.delay.toNat := by
  rw [index_eq_log, toInt_eq_self (by omega) (by omega), Int.toNat_natCast]

/-- The element is in the array as long as the narrowed delay is below `2^25`. -/
theorem index_lt_iff : e.index < 25 ↔ toInt e.delay.toNat < 2 ^ 25 := by
  rw [index_eq_log]
  by_cases hzero : (toInt e.delay.toNat).toNat = 0
  · rw [hzero, Nat.log_zero_right]
    omega
  · rw [Nat.log_lt_iff_lt_pow (by decide) hzero]
    omega

theorem increment_eq_ok : increment count i = .ok count' ↔
    ∃ h : i < 25, count ⟨i, h⟩ < 2 ^ 31 - 1 ∧
      count' = Function.update count ⟨i, h⟩ (count ⟨i, h⟩ + 1) := by
  unfold increment
  by_cases hi : i < 25
  · rw [dif_pos hi]
    by_cases hc : count ⟨i, hi⟩ < 2 ^ 31 - 1
    · rw [if_pos hc, Except.ok.injEq]
      exact ⟨fun h => ⟨hi, hc, h.symm⟩, fun ⟨_, _, h⟩ => h.symm⟩
    · rw [if_neg hc]
      exact ⟨nofun, fun ⟨_, h, _⟩ => absurd h hc⟩
  · rw [dif_neg hi]
    exact ⟨nofun, fun ⟨h, _⟩ => absurd h hi⟩

theorem increment_outOfBounds {j : Nat} :
    increment count i = .error (.outOfBounds j) ↔ 25 ≤ i ∧ j = i := by
  unfold increment
  by_cases hi : i < 25
  · rw [dif_pos hi]
    split <;> simp [hi]
  · rw [dif_neg hi]
    simp [eq_comm, Nat.not_lt.mp hi]

/-- How many records are counted in the element `i`. -/
def tally (records : List Delay) (i : Nat) : Nat := records.countP fun e => e.index = i

theorem tally_snoc : tally (records ++ [e]) i =
    tally records i + if e.index = i then 1 else 0 := by
  unfold tally
  rw [List.countP_append, List.countP_singleton]
  simp

theorem tally_update (hlt : e.index < 25) :
    Function.update (fun i : Fin 25 => tally records i.val) ⟨e.index, hlt⟩
      (tally records e.index + 1) = fun i => tally (records ++ [e]) i.val := by
  funext i
  rw [tally_snoc, Function.update_apply]
  by_cases hi : i = ⟨e.index, hlt⟩
  · rw [if_pos hi, hi, if_pos rfl]
  · rw [if_neg hi, if_neg fun h => hi (Fin.ext h.symm), Nat.add_zero]

/-- A run over the records succeeds if they fit, and then it has counted them by their elements. -/
theorem run_eq_ok : records.foldlM handleEvent noCounts = .ok count ↔
    (∀ e ∈ records, e.index < 25) ∧ (∀ i < 25, tally records i < 2 ^ 31) ∧
      count = fun i => tally records i.val := by
  induction records using List.reverseRecOn generalizing count with
  | nil =>
    constructor
    · intro h
      refine ⟨nofun, fun i _ => by simp [tally], ?_⟩
      exact (Except.ok.inj h).symm
    · rintro ⟨-, -, rfl⟩
      rfl
  | append_singleton records e ih =>
    rw [foldlM_snoc_eq_ok]
    constructor
    · rintro ⟨count', hrun, hstep⟩
      obtain ⟨hindex, hfit, rfl⟩ := ih.mp hrun
      obtain ⟨hlt, hroom, rfl⟩ := increment_eq_ok.mp hstep
      refine ⟨?_, ?_, tally_update hlt⟩
      · intro x hx
        rcases List.mem_append.mp hx with hx | hx
        · exact hindex x hx
        · rwa [List.mem_singleton.mp hx]
      · intro i hi
        have hold := hfit i hi
        rw [tally_snoc]
        split
        · rename_i hei
          have hroom' : tally records i < 2 ^ 31 - 1 := hei ▸ hroom
          omega
        · omega
    · -- the counters only grow, so that what fits in the end has fitted before
      rintro ⟨hindex, hfit, rfl⟩
      have hlt := hindex e (by simp)
      have hgrow : ∀ i, tally records i ≤ tally (records ++ [e]) i := by
        intro i
        rw [tally_snoc]
        omega
      refine ⟨_, ih.mpr ⟨fun x hx => hindex x (List.mem_append_left _ hx),
        fun i hi => lt_of_le_of_lt (hgrow i) (hfit i hi), rfl⟩, ?_⟩
      have hlast := hfit e.index hlt
      rw [tally_snoc, if_pos rfl] at hlast
      have hroom : tally records e.index < 2 ^ 31 - 1 := by omega
      exact increment_eq_ok.mpr ⟨hlt, hroom, (tally_update hlt).symm⟩

/-- The line for the records that are counted in the element `i`. -/
def row (count : Counts) (i : Nat) : Row where
  low := if i = 0 then 0 else 2 ^ i
  high := 2 ^ (i + 1) - 1
  count := count (Fin.ofNat 25 i)
  stars := printHstgram count i

theorem myPow_eq (n k : Nat) : myPow n k = n ^ k := by
  induction k with
  | zero => rfl
  | succ k ih => rw [myPow, ih, Nat.pow_succ']

theorem mem_histogram : r ∈ histogram count ↔ ∃ i < 20, r = row count i := by
  have hrows : histogram count = (List.range 20).map (row count) := by
    have hsplit : List.range 20 = 0 :: 1 :: List.range' 2 18 := rfl
    rw [hsplit, List.map_cons, List.map_cons]
    unfold histogram
    refine congrArg₂ _ rfl (congrArg₂ _ rfl (List.map_congr_left fun i hi => ?_))
    have hpos : i ≠ 0 := by
      have hrange := List.mem_range'_1.mp hi
      omega
    rw [row, if_neg hpos, myPow_eq, myPow_eq]
  rw [hrows, List.mem_map]
  constructor
  · rintro ⟨i, hi, rfl⟩
    exact ⟨i, List.mem_range.mp hi, rfl⟩
  · rintro ⟨i, hi, rfl⟩
    exact ⟨i, List.mem_range.mpr hi, rfl⟩

/-- The printed ranges are those of the logarithm. -/
theorem holds_row : (row count i).holds e ↔ Nat.log 2 e.delay.toNat = i := by
  simp only [Row.holds, Bool.and_eq_true, decide_eq_true_eq]
  change (if i = 0 then 0 else 2 ^ i) ≤ _ ∧ _ ≤ 2 ^ (i + 1) - 1 ↔ _
  by_cases hi : i = 0
  · rw [if_pos hi, hi, Nat.log_eq_zero_iff]
    omega
  · rw [if_neg hi, Nat.log_eq_iff (Or.inl hi)]
    have hpos := Nat.two_pow_pos (i + 1)
    omega

theorem log_lt_iff : Nat.log 2 e.delay.toNat < 20 ↔ e.delay.toNat < 2 ^ 20 := by
  by_cases hzero : e.delay.toNat = 0
  · rw [hzero, Nat.log_zero_right]
    omega
  · exact Nat.log_lt_iff_lt_pow (by decide) hzero

theorem tally_of_small (hsmall : ∀ e ∈ records, e.delay.toNat < 2 ^ 20) :
    tally records i = records.countP fun e => Nat.log 2 e.delay.toNat = i := by
  refine List.countP_congr fun e he => ?_
  have hlt := hsmall e he
  rw [index_of_lt (by omega)]

/-- Where all delays are below `2^20`, the elements are counted as the rows say. -/
theorem faithful_of_small (hsmall : ∀ e ∈ records, e.delay.toNat < 2 ^ 20) :
    Faithful records (histogram fun i => tally records i.val) where
  covered := by
    intro e he
    refine ⟨row (fun i => tally records i.val) (Nat.log 2 e.delay.toNat),
      ⟨?_, holds_row.mpr rfl⟩, ?_⟩
    · exact mem_histogram.mpr ⟨_, log_lt_iff.mpr (hsmall e he), rfl⟩
    · -- the range that holds the delay determines the row
      rintro r ⟨hr, hholds⟩
      obtain ⟨i, hi, rfl⟩ := mem_histogram.mp hr
      rw [holds_row.mp hholds]
  counted := by
    intro r hr
    obtain ⟨i, hi, rfl⟩ := mem_histogram.mp hr
    have hval : (Fin.ofNat 25 i).val = i := Nat.mod_eq_of_lt (by omega)
    change tally records (Fin.ofNat 25 i).val = _
    rw [hval, tally_of_small hsmall]
    refine List.countP_congr fun e he => ?_
    rw [holds_row, decide_eq_true_eq]

/-- The callback stays inside the array exactly for narrowed delays below `2^25`; the printed rows
are right exactly for delays below `2^20`, as long as no row has `2^31` records. -/
theorem histogram_right_iff (e : Delay) (records : List Delay) :
    ((∀ count i, handleEvent count e ≠ .error (.outOfBounds i)) ↔
      toInt e.delay.toNat < 2 ^ 25) ∧
    ((∃ count, records.foldlM handleEvent noCounts = .ok count ∧
        Faithful records (histogram count)) ↔
      (∀ e ∈ records, e.delay.toNat < 2 ^ 20) ∧
        ∀ i < 20, records.countP (fun e => Nat.log 2 e.delay.toNat = i) < 2 ^ 31) := by
  refine ⟨?_, ?_, ?_⟩
  · rw [← index_lt_iff]
    constructor
    · intro h
      by_contra hlt
      exact h noCounts e.index (increment_outOfBounds.mpr ⟨by omega, rfl⟩)
    · intro hlt count i h
      have hi := (increment_outOfBounds.mp h).1
      omega
  · rintro ⟨count, hrun, hfaithful⟩
    obtain ⟨hindex, hfit, rfl⟩ := run_eq_ok.mp hrun
    have hsmall : ∀ e ∈ records, e.delay.toNat < 2 ^ 20 := by
      intro e he
      obtain ⟨r, ⟨hr, hholds⟩, -⟩ := hfaithful.covered e he
      obtain ⟨i, hi, rfl⟩ := mem_histogram.mp hr
      rw [← log_lt_iff, holds_row.mp hholds]
      exact hi
    refine ⟨hsmall, fun i hi => ?_⟩
    rw [← tally_of_small hsmall]
    exact hfit i (by omega)
  · rintro ⟨hsmall, hfit⟩
    have hindex : ∀ e ∈ records, e.index < 20 := by
      intro e he
      have hlt := hsmall e he
      rw [index_of_lt (by omega)]
      exact log_lt_iff.mpr hlt
    refine ⟨_, run_eq_ok.mpr ⟨fun e he => ?_, fun i hi => ?_, rfl⟩, faithful_of_small hsmall⟩
    · have hlt := hindex e he
      omega
    · by_cases hlt : i < 20
      · rw [tally_of_small hsmall]
        exact hfit i hlt
      · have hnone : tally records i = 0 := by
          refine List.countP_eq_zero.mpr fun e he => ?_
          have hei := hindex e he
          simp only [decide_eq_true_eq]
          omega
        omega

/-- A delay of 34 seconds is counted behind the array; one of a second is in no printed row. -/
theorem longDelays_lost :
    handleEvent noCounts ⟨0, 2 ^ 25, 2 ^ 25⟩ = .error (.outOfBounds 25) ∧
      ∃ count, [(⟨0, 2 ^ 20, 2 ^ 20⟩ : Delay)].foldlM handleEvent noCounts = .ok count ∧
        ∀ r ∈ histogram count, r.holds ⟨0, 2 ^ 20, 2 ^ 20⟩ = false := by
  have hlong : (⟨0, 2 ^ 25, 2 ^ 25⟩ : Delay).index = 25 := by
    rw [index_of_lt (by decide)]
    exact Nat.log_pow (by decide) 25
  have hsecond : (⟨0, 2 ^ 20, 2 ^ 20⟩ : Delay).index = 20 := by
    rw [index_of_lt (by decide)]
    exact Nat.log_pow (by decide) 20
  constructor
  · exact increment_outOfBounds.mpr ⟨hlong.ge, hlong.symm⟩
  · refine ⟨_, run_eq_ok.mpr ⟨?_, ?_, rfl⟩, ?_⟩
    · simp [hsecond]
    · intro i hi
      have hle : tally [⟨0, 2 ^ 20, 2 ^ 20⟩] i ≤ 1 := List.countP_le_length
      omega
    · intro r hr
      obtain ⟨i, hi, rfl⟩ := mem_histogram.mp hr
      rw [Bool.eq_false_iff, ne_eq, holds_row]
      have hlog : Nat.log 2 (⟨0, 2 ^ 20, 2 ^ 20⟩ : Delay).delay.toNat = 20 :=
        Nat.log_pow (by decide) 20
      omega

end CpuSubsystem.CsDelay
