import CpuSubsystem.CpuWatcher.ScDelay.Model
import CpuSubsystem.Lib.Ewma
import Mathlib.Data.Rat.Cast.Order

/-!
# The filter of the system call delays

`dynamic_filter` in `cpu_watcher_helper.h` and `syscall_delay_print` in `cpu_watcher.c`, with
rational numbers in place of `double`.  The time of day in front of a line is left out.
-/

namespace CpuSubsystem.ScDelay

/-- `CYCLE`. -/
abbrev defaultCycle : Int := 10

/-- `TOLERANCE`. -/
abbrev tolerance : ℚ := 1

/-- `struct ewma_info`. -/
structure EwmaInfo where
  previousEWMA : ℚ
  count : Int
  cycle : Int
deriving DecidableEq

def calculateEWMA (previousEWMA dataPoint alpha : ℚ) : ℚ :=
  alpha * dataPoint + (1 - alpha) * previousEWMA

def EwmaInfo.alpha (info : EwmaInfo) : ℚ :=
  if info.cycle = 0 then 2 / (defaultCycle + 1 : ℚ) else 2 / (info.cycle + 1 : ℚ)

def dynamicFilter (info : EwmaInfo) (dataPoint : ℚ) : EwmaInfo × Bool :=
  if info.previousEWMA = 0 then ({ info with previousEWMA := dataPoint }, true)
  else if info.count < 30 then
    -- nothing advances `count`
    ({ info with previousEWMA := calculateEWMA info.previousEWMA dataPoint info.alpha }, true)
  else
    let average := calculateEWMA info.previousEWMA dataPoint info.alpha
    let threshold := average * tolerance
    ({ info with previousEWMA := average }, decide (threshold ≤ dataPoint))

/-- The filter, fed with data points; its records are its answers. -/
def filter (cycle : Int) : Machine EwmaInfo ℚ Bool where
  init := ⟨0, 0, cycle⟩
  step info dataPoint :=
    let (info, accepted) := dynamicFilter info dataPoint
    (info, [accepted])

/-! ## The printer -/

/-- The options `-E` and `-T`. -/
structure Env where
  ewma : Bool
  cycle : Int
deriving DecidableEq, Repr

structure Line where
  pid : Int
  syscallId : UInt64
  delay : UInt64
deriving DecidableEq, Repr

/-- `e->delay < 0` holds of no `u64`. -/
def syscallDelayPrint (env : Env) (c : ScCtrl) (info : EwmaInfo) (e : SyscallEvents) :
    EwmaInfo × List Line :=
  if c.scFunc then
    if e.delay > 1000000 then (info, [])
    else if env.ewma then
      let (info, accepted) := dynamicFilter { info with cycle := env.cycle } e.delay.toNat
      (info, if accepted then [⟨e.pid, e.syscallId, e.delay⟩] else [])
    else (info, [⟨e.pid, e.syscallId, e.delay⟩])
  else (info, [])

/-- The printer, under any values of the control; `ewma_syscall_delay` is zero in the beginning. -/
def printer (env : Env) : Machine EwmaInfo (ScCtrl × SyscallEvents) Line where
  init := ⟨0, 0, 0⟩
  step info input := syscallDelayPrint env input.1 info input.2

/-! ## What the filter should do -/

/-- The smoothing factor of a cycle. -/
def smoothing (cycle : Int) : ℚ := 2 / ((if cycle = 0 then 10 else cycle : Int) + 1)

/-- The answer to a data point after those before it. -/
def accepted (cycle : Int) (pre : List ℚ) (x : ℚ) : Bool :=
  (dynamicFilter ((filter cycle).exec pre) x).2

/-- After the points, the moving average. -/
def averageAfter (cycle : Int) (pre : List ℚ) : ℚ := ((filter cycle).exec pre).previousEWMA

/-- The filter keeps the weighted average, accepts the first 30 points, and from then on those that
are not below the average with them. -/
structure Filters (cycle : Int) (xs : List ℚ) : Prop where
  average : ∀ pre, pre <+: xs → pre ≠ [] → averageAfter cycle pre = ewma (smoothing cycle) pre
  warmUp : Throughout (fun pre x => pre.length < 30 → accepted cycle pre x = true) xs
  later : Throughout (fun pre x => 30 ≤ pre.length →
    (accepted cycle pre x = true ↔ averageAfter cycle (pre ++ [x]) ≤ x)) xs

section Filter

variable {cycle : Int} {info : EwmaInfo} {pre xs : List ℚ} {x : ℚ}

theorem smoothing_pos (h : 0 ≤ cycle) : 0 < smoothing cycle := by
  unfold smoothing
  split
  · norm_num
  · have hcast : (0 : ℚ) ≤ cycle := by exact_mod_cast h
    positivity

theorem smoothing_le_one (h : 0 ≤ cycle) : smoothing cycle ≤ 1 := by
  unfold smoothing
  split
  · norm_num
  · rename_i hne
    have hone : (1 : ℚ) ≤ cycle := by
      have hint : 1 ≤ cycle := by omega
      exact_mod_cast hint
    rw [div_le_one (by linarith)]
    linarith

theorem smoothing_eq_one (h : 0 ≤ cycle) : smoothing cycle = 1 ↔ cycle = 1 := by
  unfold smoothing
  split
  · rename_i hzero
    subst hzero
    norm_num
  · have hcast : (0 : ℚ) ≤ cycle := by exact_mod_cast h
    rw [div_eq_one_iff_eq (by positivity)]
    constructor
    · intro heq
      have hone : (cycle : ℚ) = 1 := by linarith
      exact_mod_cast hone
    · rintro rfl
      norm_num

/-- While the samples are not counted, every point is accepted. -/
theorem dynamicFilter_accepts (h : info.count < 30) (x : ℚ) : (dynamicFilter info x).2 = true := by
  by_cases hmark : info.previousEWMA = 0
  · rw [dynamicFilter, if_pos hmark]
  · rw [dynamicFilter, if_neg hmark, if_pos h]

theorem dynamicFilter_count (info : EwmaInfo) (x : ℚ) :
    (dynamicFilter info x).1.count = info.count := by
  unfold dynamicFilter
  split_ifs <;> rfl

theorem dynamicFilter_cycle (info : EwmaInfo) (x : ℚ) :
    (dynamicFilter info x).1.cycle = info.cycle := by
  unfold dynamicFilter
  split_ifs <;> rfl

theorem dynamicFilter_first (h : info.previousEWMA = 0) (x : ℚ) :
    (dynamicFilter info x).1.previousEWMA = x := by
  rw [dynamicFilter, if_pos h]

theorem dynamicFilter_next (h : info.previousEWMA ≠ 0) (x : ℚ) :
    (dynamicFilter info x).1.previousEWMA =
      info.alpha * x + (1 - info.alpha) * info.previousEWMA := by
  rw [dynamicFilter, if_neg h]
  split_ifs <;> rfl

theorem alpha_eq (h : info.cycle = cycle) : info.alpha = smoothing cycle := by
  unfold EwmaInfo.alpha smoothing
  rw [h]
  split <;> norm_num

theorem exec_filter_snoc (cycle : Int) (pre : List ℚ) (x : ℚ) :
    (filter cycle).exec (pre ++ [x]) = (dynamicFilter ((filter cycle).exec pre) x).1 :=
  (filter cycle).exec_snoc pre x

/-- No sequence of points changes the counter or the cycle. -/
theorem exec_filter_count (cycle : Int) (pre : List ℚ) :
    ((filter cycle).exec pre).count = 0 ∧ ((filter cycle).exec pre).cycle = cycle := by
  induction pre using List.reverseRecOn with
  | nil => exact ⟨rfl, rfl⟩
  | append_singleton pre x ih =>
    rw [exec_filter_snoc, dynamicFilter_count, dynamicFilter_cycle]
    exact ih

theorem accepted_all (cycle : Int) (pre : List ℚ) (x : ℚ) : accepted cycle pre x = true := by
  apply dynamicFilter_accepts
  rw [(exec_filter_count cycle pre).1]
  decide

/-- After positive points the average is not 0, so none of them is taken for the first one. -/
theorem averageAfter_eq (h : 0 ≤ cycle) (hne : pre ≠ []) (hpos : ∀ y ∈ pre, 0 < y) :
    averageAfter cycle pre = ewma (smoothing cycle) pre := by
  induction pre using List.reverseRecOn with
  | nil => exact absurd rfl hne
  | append_singleton pre x ih =>
    have hpre : ∀ y ∈ pre, 0 < y := fun y hy => hpos y (List.mem_append_left _ hy)
    rw [averageAfter, exec_filter_snoc]
    rcases eq_or_ne pre [] with rfl | hpre_ne
    · rw [dynamicFilter_first rfl, List.nil_append, ewma_singleton]
    · have hprev := ih hpre_ne hpre
      have hmark : ((filter cycle).exec pre).previousEWMA ≠ 0 := by
        rw [← averageAfter, hprev]
        exact (ewma_pos (smoothing_pos h) (smoothing_le_one h) hpre_ne hpre).ne'
      rw [dynamicFilter_next hmark, alpha_eq (exec_filter_count cycle pre).2, ← averageAfter, hprev,
        ewma_snoc hpre_ne]

/-- The filter does what it should exactly when no point after the first 30 has to be rejected: the
cycle is 1, or each of them is at least the average of the points before it. -/
theorem filters_iff (cycle : Int) (xs : List ℚ) (h : 0 ≤ cycle) (hpos : ∀ x ∈ xs, 0 < x) :
    Filters cycle xs ↔ cycle = 1 ∨
      Throughout (fun pre x => 30 ≤ pre.length → ewma (smoothing cycle) pre ≤ x) xs := by
  have haverage : ∀ pre, pre <+: xs → pre ≠ [] →
      averageAfter cycle pre = ewma (smoothing cycle) pre := by
    intro pre hp hne
    exact averageAfter_eq h hne fun y hy => hpos y (hp.subset hy)
  have hlater : ∀ pre x, pre ++ [x] <+: xs → 30 ≤ pre.length →
      ((accepted cycle pre x = true ↔ averageAfter cycle (pre ++ [x]) ≤ x) ↔
        cycle = 1 ∨ ewma (smoothing cycle) pre ≤ x) := by
    intro pre x hp hlen
    have hne : pre ≠ [] := List.length_pos_iff.mp (by omega)
    rw [accepted_all, eq_self, true_iff, haverage _ hp (by simp),
      ewma_snoc_le (smoothing_le_one h) hne, smoothing_eq_one h]
  constructor
  · intro hf
    by_cases hone : cycle = 1
    · exact Or.inl hone
    · refine Or.inr fun pre x hp hlen => ?_
      exact ((hlater pre x hp hlen).mp (hf.later pre x hp hlen)).resolve_left hone
  · intro hcond
    refine ⟨haverage, fun pre x _ _ => accepted_all cycle pre x, fun pre x hp hlen => ?_⟩
    exact (hlater pre x hp hlen).mpr (hcond.imp_right fun hall => hall pre x hp hlen)

/-- A delay of a tenth of the usual one, long after the start, with the usual cycle. -/
def shortDelay : List ℚ := List.replicate 30 100 ++ [10]

theorem filters_iff_steady : Filters 0 (List.replicate 31 100) :=
  (filters_iff 0 (List.replicate 31 100) (by decide) (by decide +kernel)).mpr
    (Or.inr (by decide +kernel))

/-- It is accepted, although it is below the average. -/
theorem shortDelay_accepted :
    ¬ ∀ (cycle : Int) (xs : List ℚ), 0 ≤ cycle → (∀ x ∈ xs, 0 < x) → Filters cycle xs := by
  intro h
  have hf := h 0 shortDelay (by decide) (by decide +kernel)
  have hlater := hf.later (List.replicate 30 100) 10 List.prefix_rfl (by simp)
  have haverage := hlater.mp (accepted_all _ _ _)
  revert haverage
  decide +kernel

end Filter

/-! ## What is printed -/

section Printer

variable {env : Env} {c : ScCtrl} {info : EwmaInfo} {e : SyscallEvents}

theorem syscallDelayPrint_count (env : Env) (c : ScCtrl) (info : EwmaInfo) (e : SyscallEvents) :
    (syscallDelayPrint env c info e).1.count = info.count := by
  unfold syscallDelayPrint
  split_ifs
  · rfl
  · exact dynamicFilter_count _ _
  · rfl
  · rfl

/-- With the filter a record is printed as without it. -/
theorem syscallDelayPrint_filtered (h : info.count < 30) (h₁ : env.ewma = true) {env' : Env}
    (h₂ : env'.ewma = false) (info' : EwmaInfo) :
    (syscallDelayPrint env c info e).2 = (syscallDelayPrint env' c info' e).2 := by
  have hcount : ({ info with cycle := env.cycle } : EwmaInfo).count < 30 := h
  have hall := dynamicFilter_accepts hcount e.delay.toNat
  unfold syscallDelayPrint
  simp only [h₁, h₂, hall, if_true, Bool.false_eq_true, if_false]
  split_ifs <;> rfl

/-- The option `-E` changes nothing of what is printed, whatever the records and the control are. -/
theorem printer_filtered (env env' : Env) (h : env.ewma = true) (h' : env'.ewma = false)
    (inputs : List (ScCtrl × SyscallEvents)) :
    (printer env).emitted inputs = (printer env').emitted inputs := by
  have hcount : ∀ pre, ((printer env).exec pre).count = 0 := by
    intro pre
    induction pre using List.reverseRecOn with
    | nil => rfl
    | append_singleton pre input ih =>
      rw [(printer env).exec_snoc]
      exact (syscallDelayPrint_count env input.1 _ input.2).trans ih
  induction inputs using List.reverseRecOn with
  | nil => rfl
  | append_singleton pre input ih =>
    rw [Machine.emitted_snoc, Machine.emitted_snoc, ih]
    congr 1
    apply syscallDelayPrint_filtered _ h h'
    rw [hcount]
    decide

end Printer

end CpuSubsystem.ScDelay
