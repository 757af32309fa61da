import CpuSubsystem.ProcImage.SyscallImage.Bounds
import CpuSubsystem.ProcImage.SyscallImage.Reservations

/-!
# The statistics agree

The kernel side keeps totals and extrema of every thread beside its open batch, and the user side
rebuilds those of the system from the batches.  On a clock that advances all the averages that are
printed are between the extrema that are printed with them, as long as `proc_count`, a 32-bit
counter, does not wrap.
-/

namespace CpuSubsystem.SyscallImage

def Event.task : Event → Option Task
  | .sysEnter cur .. | .sysExit cur .. | .schedProcessExit cur => some cur
  | .scCtrl _ => none

/-- What `bpf_ktime_get_ns` returns in the handler. -/
def Event.time : Event → Option UInt64
  | .sysEnter _ now _ _ | .sysExit _ now _ => some now
  | .scCtrl _ | .schedProcessExit _ => none

/-- Every event is later than those before it. -/
def StrictClock (tr : List Event) : Prop := (tr.filterMap Event.time).Pairwise (· < ·)

instance (tr : List Event) : Decidable (StrictClock tr) :=
  inferInstanceAs (Decidable (List.Pairwise _ _))

section Policy

variable (ro : Rodata) (c : ScCtrl) (tgidOf : Int → Int)

/-- A steady run on a clock that advances, with at most one target, whose 64-bit sums do not
overflow. -/
structure MeasuredRun (tr : List Event) : Prop where
  steady : SteadyRun c tgidOf tr
  oneTarget : c.targetPid = -1 ∨ c.targetTgid = -1
  ids : ∀ e ∈ tr, ∀ cur, e.task = some cur → 0 ≤ cur.pid ∧ 0 ≤ cur.tgid
  strict : StrictClock tr
  sumDelay : (((machine ro c).emitted tr).map fun r => r.sumDelay.toNat).sum < 2 ^ 64
  sumCount : (((machine ro c).emitted tr).map SyscallSeq.count).sum < 2 ^ 64

/-- The calls that were sent of any one thread fit in `proc_count`. -/
def Few (tr : List Event) : Prop := ∀ p, (ledger ro c p tr).kept.length < 2 ^ 32

/-- What is sent of a selected thread has the totals of all its batches so far and the extrema of
all its calls so far. -/
def TotalsRight (pre : List Event) (e : Event) : Prop :=
  CountedOnce ro c pre e ∧
  ∀ r ∈ (machine ro c).emits pre e, selected c r.pid r.tgid = true →
    Greatest (delays (calls (view r.pid) (pre ++ [e])).completed) r.maxDelay ∧
    Least (delays (calls (view r.pid) (pre ++ [e])).completed) r.minDelay

end Policy

/-- The averages of the line are between the extrema. -/
structure Row.Between (row : Row) : Prop where
  proc : row.procMinDelay ≤ row.procAvgDelay ∧ row.procAvgDelay ≤ row.procMaxDelay
  sys : row.sysMinDelay ≤ row.sysAvgDelay ∧ row.sysAvgDelay ≤ row.sysMaxDelay

/-- The batch takes between `count` times the least and `count` times the greatest delay. -/
structure SyscallSeq.Fair (r : SyscallSeq) : Prop where
  pos : 1 ≤ r.count
  least : r.minDelay ≠ 0
  low : r.minDelay.toNat * r.count ≤ r.sumDelay.toNat
  high : r.sumDelay.toNat ≤ r.maxDelay.toNat * r.count

/-- The same of the totals of the thread. -/
structure SyscallSeq.FairTotals (r : SyscallSeq) : Prop where
  pos : 1 ≤ r.procCount
  small : r.procCount < 2 ^ 32
  low : r.minDelay.toNat * r.procCount ≤ r.procSd.toNat
  high : r.procSd.toNat ≤ r.maxDelay.toNat * r.procCount

section Calls

variable {p : Int} {tr : List Event}

/-- The times of the probes of a thread are among the times of all events. -/
theorem stamps_sublist (p : Int) (tr : List Event) :
    ((tr.filterMap (view p)).map (Probe.stamp Prod.snd id)).Sublist (tr.filterMap Event.time) := by
  induction tr with
  | nil => exact List.Sublist.refl _
  | cons e tr ih =>
    rcases view_cases p e with h | ⟨cur, now, id, room, rfl, rfl⟩ | ⟨cur, now, slot, rfl, rfl⟩
    · rw [List.filterMap_cons_none h, List.filterMap_cons]
      split
      · exact ih
      · exact ih.trans (List.sublist_cons_self _ _)
    · rw [List.filterMap_cons_some (view_enter_self cur now id room), List.map_cons]
      exact ih.cons_cons now
    · rw [List.filterMap_cons_some (view_exit_self cur now slot), List.map_cons]
      exact ih.cons_cons now

theorem StrictClock.sequential (h : StrictClock tr) (p : Int) :
    Sequential (spans Prod.snd id (calls (view p) tr).completed) := by
  apply calls_sequential
  exact (h.sublist (stamps_sublist p tr)).imp UInt64.le_of_lt

theorem delays_eq (b : List Call) : delays b = (spans Prod.snd id b).map Span.delay := by
  simp [delays, spans, Span.delay, Function.comp_def]

theorem StrictClock.delays_ne_zero (h : StrictClock tr) (p : Int) :
    ∀ d ∈ delays (calls (view p) tr).completed, d ≠ 0 := by
  intro d hd hzero
  rw [delays_eq] at hd
  obtain ⟨i, hi, rfl⟩ := List.mem_map.mp hd
  -- the difference is exact, as the clock advances
  have hlt : i.1 < i.2 := calls_lasting (h.sublist (stamps_sublist p tr)) i hi
  have hnat := congrArg UInt64.toNat hzero
  rw [Span.delay, UInt64.toNat_sub_of_le _ _ (UInt64.le_of_lt hlt)] at hnat
  rw [UInt64.lt_iff_toNat_lt] at hlt
  simp only [UInt64.toNat_zero] at hnat
  omega

/-- Calls among those whose extrema are known. -/
theorem delaySum_between {b all : List Call} {lo hi : UInt64} (hb : b.Sublist all)
    (hseq : Sequential (spans Prod.snd id all)) (hlo : Least (delays all) lo)
    (hhi : Greatest (delays all) hi) :
    lo.toNat * b.length ≤ (delaySum b).toNat ∧ (delaySum b).toNat ≤ hi.toNat * b.length := by
  have hsub : (spans Prod.snd id b).Sublist (spans Prod.snd id all) := hb.map _
  have hlen : (spans Prod.snd id b).length = b.length := List.length_map _
  rw [delaySum_eq, delays_eq, ← hlen]
  apply (hseq.sublist hsub).sum_between
  intro i hi
  have hmem : i.delay ∈ delays all := by
    rw [delays_eq]
    exact List.mem_map_of_mem (hsub.subset hi)
  exact ⟨hlo.le hmem, hhi.le hmem⟩

end Calls

section Records

variable {ro : Rodata} {c : ScCtrl} {tgidOf : Int → Int} {pre tr : List Event} {e : Event}
variable {r : SyscallSeq} {p : Int}

theorem SteadyRun.probeRun (h : SteadyRun c tgidOf tr) : ProbeRun c tgidOf tr where
  scFunc := h.scFunc
  syscalls := h.syscalls
  alternating := h.alternating
  probing e he := by
    have hsteady := h.steady e he
    cases e with
    | sysEnter cur now id room => exact hsteady.1
    | sysExit cur now slot => exact hsteady.1
    | scCtrl c' => exact hsteady
    | schedProcessExit cur => exact hsteady

/-- In a steady run all probes of a thread are clean, if the thread is traced at all. -/
theorem SteadyRun.clean (ro : Rodata) (h : SteadyRun c tgidOf tr)
    (hp : threadTraced ro c tgidOf p = true) : Throughout (CleanFor ro c p) tr := by
  intro pre e hpre hview
  have hctrl := (h.probeRun.restrict ((List.prefix_append pre [e]).trans hpre)).ctrl ro
  have hsteady := h.steady e (hpre.subset (List.mem_append_right _ (List.mem_singleton_self e)))
  have htraced : ∀ cur : Task, cur.tgid = tgidOf cur.pid → cur.pid = p →
      SyscallImage.traced ro ((machine ro c).exec pre).scCtrlMap cur = true := by
    intro cur hcur hcp
    rw [hctrl, h.traced ro hcur, hcp, hp]
  rcases view_cases p e with hnone | ⟨cur, now, id, room, rfl, hcp⟩ | ⟨cur, now, slot, rfl, hcp⟩
  · rw [hnone] at hview
    cases hview
  · obtain ⟨hcur, hroom⟩ := hsteady
    show stores ro ((machine ro c).exec pre) cur room = true
    rw [stores, htraced cur hcur hcp, hroom, BpfMap.accepts_true]
    rfl
  · obtain ⟨hcur, hslot⟩ := hsteady
    intro _
    refine ⟨htraced cur hcur hcp, ?_⟩
    rw [Option.isNone_eq_false_iff.mpr hslot, Bool.and_false]

/-- What is sent in a steady run. -/
theorem SteadyRun.sent (ro : Rodata) (h : SteadyRun c tgidOf tr) (hp : pre ++ [e] <+: tr)
    (hr : r ∈ (machine ro c).emits pre e) :
    (∃ cur, e.task = some cur ∧ r.pid = cur.pid ∧ r.tgid = cur.tgid) ∧
    Throughout (CleanFor ro c r.pid) (pre ++ [e]) ∧ r.tgid = tgidOf r.pid ∧ ∃ b,
      Sent (selected c r.pid (tgidOf r.pid)) (batchSize c) (ledger ro c r.pid pre)
        (ledger ro c r.pid (pre ++ [e])) b r := by
  have hprobe := h.probeRun.restrict hp
  obtain ⟨cur, now, slot, rfl, hpid, htgid⟩ := exit_of_emits hr
  have hcur : cur.tgid = tgidOf cur.pid := hprobe.last
  have htraced : threadTraced ro c tgidOf cur.pid = true := by
    by_contra hnot
    have hoff : SyscallImage.traced ro ((machine ro c).exec pre).scCtrlMap cur = false := by
      rw [hprobe.of_snoc.ctrl ro, h.traced ro hcur]
      exact Bool.eq_false_of_not_eq_true hnot
    have hnone : r ∈ (sysExit ro ((machine ro c).exec pre) cur now slot).2 := hr
    rw [sysExit_untraced ro _ cur now slot hoff] at hnone
    cases hnone
  have hclean : Throughout (CleanFor ro c r.pid) (pre ++ [Event.sysExit cur now slot]) := by
    rw [hpid]
    exact (h.clean ro htraced).restrict hp
  exact ⟨⟨cur, rfl, hpid, htgid⟩, hclean, sent_of_clean ro hprobe hr hclean⟩

/-- The calls that are reported of a thread are only added to. -/
theorem kept_grows (ro : Rodata) (c : ScCtrl) (p : Int) {pre tr : List Event} (h : pre <+: tr) :
    (ledger ro c p pre).kept <+: (ledger ro c p tr).kept := by
  apply grows_of_steps (f := fun tr => (ledger ro c p tr).kept) _ h
  intro pre e
  rcases view_cases p e with hv | ⟨cur, now, id, room, rfl, rfl⟩ | ⟨cur, now, slot, rfl, rfl⟩
  · rw [ledger_skip hv]
  · rw [ledger_enter]
    exact List.prefix_rfl
  · rw [ledger_exit]
    unfold Ledger.exit
    split
    · exact List.prefix_rfl
    · split
      · exact List.prefix_rfl
      · exact List.prefix_rfl
      · exact List.prefix_append _ _

end Records

section Measured

variable {ro : Rodata} {c : ScCtrl} {tgidOf : Int → Int} {pre tr : List Event} {e : Event}
variable {r : SyscallSeq}

theorem StrictClock.restrict (h : StrictClock tr) (hp : pre <+: tr) : StrictClock pre :=
  h.sublist (hp.sublist.filterMap _)

theorem MeasuredRun.totals_right (h : MeasuredRun ro c tgidOf tr) (hfew : Few ro c tr) :
    Throughout (TotalsRight ro c) tr := by
  refine fun pre e hp => ⟨fun r hr hsel => ?_, fun r hr hsel => ?_⟩
  all_goals obtain ⟨-, -, htgid, b, hsent⟩ := h.steady.sent ro hp hr
  all_goals rw [htgid] at hsel
  · refine ⟨b, hsent.kept, hsent.batch.count, hsent.batch.sumDelay, ?_, hsent.procSd hsel⟩
    rw [hsent.procCount hsel]
    exact Nat.mod_eq_of_lt (Nat.lt_of_le_of_lt (kept_grows ro c r.pid hp).length_le
      (hfew r.pid))
  · rw [← ledger_seen ro c]
    refine ⟨hsent.greatest, hsent.least ?_⟩
    rw [ledger_seen]
    exact (h.strict.restrict hp).delays_ne_zero r.pid

/-- What is sent, seen as numbers. -/
theorem MeasuredRun.fair (h : MeasuredRun ro c tgidOf tr) (hr : r ∈ (machine ro c).emitted tr) :
    r.Fair ∧ 0 ≤ r.pid ∧ 0 ≤ r.tgid ∧
      (Few ro c tr → selected c r.pid r.tgid = true → r.FairTotals) := by
  obtain ⟨pre, e, hp, hre⟩ := (machine ro c).mem_emitted hr
  obtain ⟨⟨cur, htask, hpid, htgid'⟩, -, htgid, b, hsent⟩ := h.steady.sent ro hp hre
  have hids := h.ids e (hp.subset (List.mem_append_right _ (List.mem_singleton_self e))) cur htask
  have hclock := h.strict.restrict hp
  have hseen := ledger_seen ro c r.pid (pre ++ [e])
  have hseq := hclock.sequential r.pid
  have hne := hclock.delays_ne_zero r.pid
  have hgreatest := hsent.greatest
  have hleast := hsent.least (by rw [hseen]; exact hne)
  have hkept := (List.sublist_append_left _ _).trans (ledger_sublist ro c r.pid (pre ++ [e]))
  rw [hseen] at hgreatest hleast hkept
  have hb : b.Sublist (calls (view r.pid) (pre ++ [e])).completed := by
    apply List.Sublist.trans _ hkept
    rw [hsent.kept]
    exact List.sublist_append_right _ _
  have hpos : 1 ≤ b.length := by
    rw [hsent.length]
    exact h.steady.probeRun.batchSize_le.1
  have hleast_ne : r.minDelay ≠ 0 := by
    rcases hleast with ⟨hnil, -⟩ | ⟨hmem, -⟩
    · have hall : (calls (view r.pid) (pre ++ [e])).completed = [] := List.map_eq_nil_iff.mp hnil
      rw [hall] at hb
      rw [List.sublist_nil.mp hb] at hpos
      cases hpos
    · exact hne _ hmem
  have hbatch := delaySum_between hb hseq hleast hgreatest
  rw [← hsent.batch.sumDelay, ← hsent.batch.count] at hbatch
  refine ⟨⟨?_, hleast_ne, hbatch.1, hbatch.2⟩, by rw [hpid]; exact hids.1,
    by rw [htgid']; exact hids.2, fun hfew hsel => ?_⟩
  · rw [hsent.batch.count]
    exact hpos
  · rw [htgid] at hsel
    have hlt := Nat.lt_of_le_of_lt (kept_grows ro c r.pid hp).length_le (hfew r.pid)
    have hproc := hsent.procCount hsel
    rw [Nat.mod_eq_of_lt hlt] at hproc
    have htotal := delaySum_between hkept hseq hleast hgreatest
    rw [← hsent.procSd hsel, ← hproc] at htotal
    refine ⟨?_, by rw [hproc]; exact hlt, htotal.1, htotal.2⟩
    rw [hproc, hsent.kept, List.length_append]
    omega

end Measured

section Reader

variable {c : ScCtrl} {es : List SyscallSeq} {r : SyscallSeq}

/-- With one target, what is printed is what is selected. -/
theorem printed_selected (hone : c.targetPid = -1 ∨ c.targetTgid = -1) (hpid : 0 ≤ r.pid)
    (htgid : 0 ≤ r.tgid) (h : printed c r = true) : selected c r.pid r.tgid = true := by
  simp only [printed, selected, Bool.or_eq_true, Bool.and_eq_true, beq_iff_eq,
    bne_iff_ne] at h ⊢
  omega

/-- While the image is on, everything is consumed. -/
theorem consumed_all (hc : c.scFunc = true) (es : List SyscallSeq) :
    consumed (es.map fun x => (c, x)) = es := by
  induction es with
  | nil => rfl
  | cons e es ih =>
    rw [List.map_cons, consumed_cons, ih, if_pos hc]
    rfl

theorem addAll_greatest (es : List SyscallSeq) :
    Greatest (es.map SyscallSeq.maxDelay) (Env.initial.addAll es).maxDelay := by
  induction es using List.reverseRecOn with
  | nil => exact Or.inl ⟨rfl, rfl⟩
  | append_singleton es e ih =>
    rw [addAll_snoc, List.map_append]
    exact ih.add e.maxDelay

theorem addAll_least (es : List SyscallSeq) (h : ∀ e ∈ es, e.minDelay ≠ 0) :
    Least (es.map SyscallSeq.minDelay) (Env.initial.addAll es).minDelay := by
  induction es using List.reverseRecOn with
  | nil => exact Or.inl ⟨rfl, rfl⟩
  | append_singleton es e ih =>
    have hes : ∀ x ∈ es, x.minDelay ≠ 0 := fun x hx => h x (List.mem_append_left _ hx)
    rw [addAll_snoc, List.map_append]
    apply (ih hes).add
    intro d hd
    obtain ⟨x, hx, rfl⟩ := List.mem_map.mp hd
    exact hes x hx

/-- The figures of the system after fair batches. -/
theorem addAll_between (hfair : ∀ e ∈ es, e.Fair) (hne : es ≠ [])
    (hsum : (es.map fun r => r.sumDelay.toNat).sum < 2 ^ 64)
    (hcount : (es.map SyscallSeq.count).sum < 2 ^ 64) :
    (Env.initial.addAll es).sumCount ≠ 0 ∧
    (Env.initial.addAll es).minDelay ≤
      (Env.initial.addAll es).sumDelay / (Env.initial.addAll es).sumCount ∧
    (Env.initial.addAll es).sumDelay / (Env.initial.addAll es).sumCount ≤
      (Env.initial.addAll es).maxDelay := by
  have hn : (Env.initial.addAll es).sumCount.toNat = (es.map SyscallSeq.count).sum := by
    rw [addAll_sumCount, show Env.initial.sumCount = 0 from rfl, UInt64.zero_add,
      UInt64.toNat_ofNat_of_lt' hcount]
  have hd : (Env.initial.addAll es).sumDelay.toNat =
      (es.map fun r => r.sumDelay.toNat).sum := by
    have hmap : (es.map SyscallSeq.sumDelay).map UInt64.toNat =
        es.map fun r => r.sumDelay.toNat := List.map_map
    rw [addAll_sumDelay, show Env.initial.sumDelay = 0 from rfl, UInt64.zero_add,
      sum_toNat_of_lt (by rw [hmap]; exact hsum), hmap]
  have hpos : 0 < (es.map SyscallSeq.count).sum := by
    obtain ⟨e, rest, rfl⟩ := List.exists_cons_of_ne_nil hne
    have hfirst := (hfair e List.mem_cons_self).pos
    rw [List.map_cons, List.sum_cons]
    omega
  have hne0 : (Env.initial.addAll es).sumCount ≠ 0 := by
    intro hzero
    rw [hzero] at hn
    simp only [UInt64.toNat_zero] at hn
    omega
  have hgreatest := addAll_greatest es
  have hleast := addAll_least es fun e he => (hfair e he).least
  have hbetween : ∀ e ∈ es,
      (Env.initial.addAll es).minDelay.toNat * e.count ≤ e.sumDelay.toNat ∧
      e.sumDelay.toNat ≤ (Env.initial.addAll es).maxDelay.toNat * e.count := by
    intro e he
    have hmin := UInt64.le_iff_toNat_le.mp (hleast.le (List.mem_map_of_mem he))
    have hmax := UInt64.le_iff_toNat_le.mp (hgreatest.le (List.mem_map_of_mem he))
    exact ⟨(Nat.mul_le_mul_right _ hmin).trans (hfair e he).low,
      (hfair e he).high.trans (Nat.mul_le_mul_right _ hmax)⟩
  obtain ⟨hlo, hhi⟩ := sums_between hbetween
  rw [← hn, ← hd] at hlo hhi
  exact ⟨hne0, average_between hne0 hlo hhi⟩

/-- The figures of the system after the first records of a run. -/
theorem MeasuredRun.system_between {ro : Rodata} {tgidOf : Int → Int} {tr : List Event}
    (h : MeasuredRun ro c tgidOf tr)
    (hes : es <+: (machine ro c).emitted tr) (hne : es ≠ []) :
    (Env.initial.addAll es).sumCount ≠ 0 ∧
    (Env.initial.addAll es).minDelay ≤
      (Env.initial.addAll es).sumDelay / (Env.initial.addAll es).sumCount ∧
    (Env.initial.addAll es).sumDelay / (Env.initial.addAll es).sumCount ≤
      (Env.initial.addAll es).maxDelay := by
  have hsum : ∀ f : SyscallSeq → Nat,
      (es.map f).sum ≤ (((machine ro c).emitted tr).map f).sum := by
    intro f
    obtain ⟨post, hpost⟩ := hes
    rw [← hpost, List.map_append, List.sum_append]
    exact Nat.le_add_right _ _
  apply addAll_between (fun x hx => (h.fair (hes.subset hx)).1) hne
  · exact Nat.lt_of_le_of_lt (hsum _) h.sumDelay
  · exact Nat.lt_of_le_of_lt (hsum _) h.sumCount

/-- The average of a thread. -/
theorem SyscallSeq.FairTotals.average (h : r.FairTotals) :
    UInt64.ofNat r.procCount ≠ 0 ∧ r.minDelay ≤ r.procSd / UInt64.ofNat r.procCount ∧
      r.procSd / UInt64.ofNat r.procCount ≤ r.maxDelay := by
  have hcount : (UInt64.ofNat r.procCount).toNat = r.procCount :=
    UInt64.toNat_ofNat_of_lt' (Nat.lt_trans h.small (by decide))
  have hne : UInt64.ofNat r.procCount ≠ 0 := by
    intro hzero
    have hpos := h.pos
    rw [← hcount, hzero] at hpos
    exact absurd hpos (by decide)
  refine ⟨hne, ?_⟩
  apply average_between hne
  · rw [hcount]
    exact h.low
  · rw [hcount]
    exact h.high

end Reader

/-- In a measured run every event of a selected thread has the totals and the extrema of the calls
of the thread, and whatever the user side prints lies between the extrema, without a division by
zero. -/
theorem statistics_agree (ro : Rodata) (c : ScCtrl) (tgidOf : Int → Int) (tr : List Event)
    (h : MeasuredRun ro c tgidOf tr) (hfew : Few ro c tr) :
    Throughout (TotalsRight ro c) tr ∧
    ∀ es r env, es ++ [r] <+: (machine ro c).emitted tr →
      printAll Env.initial (es.map fun x => (c, x)) = .ok env →
      Meets (· ≠ .divByZero) (fun x => ∀ row, x.2 = some row → row.Between)
        (printSyscall c env r) := by
  refine ⟨h.totals_right hfew, fun es r env hes hprint => ?_⟩
  obtain ⟨-, hpid, htgid, htotals⟩ :=
    h.fair (hes.subset (List.mem_append_right es (List.mem_singleton_self r)))
  have hproc : printed c r = true → r.FairTotals := fun hprinted =>
    htotals hfew (printed_selected h.oneTarget hpid htgid hprinted)
  obtain ⟨hne, hlo, hhi⟩ := h.system_between hes (List.append_ne_nil_of_right_ne_nil es (by simp))
  -- the totals of the user side are those of the records so far
  obtain ⟨m, rfl⟩ := printAll_totals hprint
  rw [consumed_all h.steady.scFunc]
  rw [addAll_snoc] at hne hlo hhi
  have hne' : (({ Env.initial.addAll es with map := m } : Env).add r).sumCount ≠ 0 := hne
  apply (meets_printSyscall_row hne' fun hprinted => (hproc hprinted).average.1).mono
  rintro x hx row hrow
  obtain ⟨hprinted, havg, hmax, hmin, hsysAvg, hsysMax, hsysMin⟩ := hx row hrow
  constructor
  · rw [havg, hmax, hmin]
    exact (hproc hprinted).average.2
  · rw [hsysAvg, hsysMax, hsysMin]
    exact ⟨hlo, hhi⟩

section Sample

theorem few_of_length {ro : Rodata} {c : ScCtrl} {tr : List Event} (h : tr.length < 2 ^ 32) :
    Few ro c tr := by
  intro p
  have hsub := (List.sublist_append_left _ _).trans (ledger_sublist ro c p tr)
  rw [ledger_seen] at hsub
  exact Nat.lt_of_le_of_lt (hsub.length_le.trans (completed_length_le _ _)) h

theorem sampleCalls_measured : MeasuredRun ⟨1, []⟩ sampleCtrl (fun _ => 4) sampleCalls where
  steady := sampleCalls_steady
  oneTarget := Or.inr rfl
  ids e he cur hcur := by
    have hall : ∀ e ∈ sampleCalls, e.task = some sampleTask := by decide
    rw [hall e he] at hcur
    cases hcur
    decide
  strict := by decide
  sumDelay := by decide +kernel
  sumCount := by decide +kernel

theorem statistics_agree_sample :
    Throughout (TotalsRight ⟨1, []⟩ sampleCtrl) sampleCalls ∧
    ∀ es r env, es ++ [r] <+: (machine ⟨1, []⟩ sampleCtrl).emitted sampleCalls →
      printAll Env.initial (es.map fun x => (sampleCtrl, x)) = .ok env →
      Meets (· ≠ .divByZero) (fun x => ∀ row, x.2 = some row → row.Between)
        (printSyscall sampleCtrl env r) :=
  statistics_agree ⟨1, []⟩ sampleCtrl (fun _ => 4) sampleCalls sampleCalls_measured
    (few_of_length (by decide))

end Sample

section Wrap

def caller : Task := ⟨5, 4, none⟩

/-- A thread makes `n` calls, each of which is a batch. -/
def singles : Nat → List Event
  | 0 => []
  | n + 1 => singles n ++
    [.sysEnter caller (UInt64.ofNat (2 * n + 1)) 0 true,
      .sysExit caller (UInt64.ofNat (2 * n + 2)) (some .zero)]

/-- The thread has made `n` calls and is in none. -/
structure Made (n : Nat) (s : State) : Prop where
  ctrl : s.scCtrlMap = everyCall
  entry : (s.procSyscall.lookup 5 = none ∧ n = 0) ∨
    ∃ q, s.procSyscall.lookup 5 = some q ∧ q.count = 0 ∧ q.sumDelay = 0 ∧
      q.procCount = n % 2 ^ 32

variable {n : Nat} {s : State}

/-- The entry during the next call. -/
theorem Made.enter (h : Made n s) (now : UInt64) :
    (sysEnter ⟨1, []⟩ s caller now 0 true).scCtrlMap = everyCall ∧
    ∃ q, (sysEnter ⟨1, []⟩ s caller now 0 true).procSyscall.lookup 5 = some q ∧ q.count = 1 ∧
      q.sumDelay = 0 ∧ q.enterTime = now ∧ q.procCount = n % 2 ^ 32 := by
  have ht : traced ⟨1, []⟩ s.scCtrlMap caller = true := by
    rw [h.ctrl]
    decide
  refine ⟨(sysEnter_frame _ s caller now 0 true).1.trans h.ctrl, ?_⟩
  rcases h.entry with ⟨hl, rfl⟩ | ⟨q, hl, hcount, hsum, hproc⟩
  · rw [sysEnter_absent _ s caller now 0 true ht hl, BpfMap.update_true]
    exact ⟨_, BpfMap.lookup_store_self _ _ _, rfl, rfl, rfl, rfl⟩
  · rw [sysEnter_present _ s caller now 0 true ht hl]
    refine ⟨_, State.put_lookup_self _ _ _, ?_, ?_, SyscallSeq.enter_enterTime _ _ _ _, ?_⟩
    · rw [SyscallSeq.enter_count _ _ _ _ (by rw [hcount]; decide), hcount]
    · rw [SyscallSeq.enter_sumDelay, hsum]
    · rw [(enter_totals q _ now 0).1, hproc]

/-- The event that reports the next call. -/
theorem Made.exit {q : SyscallSeq} (hctrl : s.scCtrlMap = everyCall)
    (hl : s.procSyscall.lookup 5 = some q) (hcount : q.count = 1) (hsum : q.sumDelay = 0)
    (hproc : q.procCount = n % 2 ^ 32) (now : UInt64) :
    Made (n + 1) (sysExit ⟨1, []⟩ s caller now (some .zero)).1 ∧
    ∃ r, (sysExit ⟨1, []⟩ s caller now (some .zero)).2 = [r] ∧ r.pid = 5 ∧ r.tgid = 4 ∧
      r.count = 1 ∧ r.sumDelay = now - q.enterTime ∧ r.procCount = (n + 1) % 2 ^ 32 := by
  have ht : traced ⟨1, []⟩ s.scCtrlMap caller = true := by
    rw [hctrl]
    decide
  have hsel : selected s.scCtrlMap caller.pid caller.tgid = true := by
    rw [hctrl]
    decide
  have htotal : (n % 2 ^ 32 + 1) % 2 ^ 32 = (n + 1) % 2 ^ 32 := Nat.mod_add_mod _ _ _
  have hc := sysExit_present ⟨1, []⟩ s caller now (some .zero) ht hl
  generalize sysExit ⟨1, []⟩ s caller now (some .zero) = res at hc ⊢
  cases hc with
  | more hopen =>
    rw [SyscallSeq.charge_count, hcount, hctrl] at hopen
    exact absurd hopen (by decide)
  | dropPid _ hpid =>
    rw [retargetedPid, hctrl] at hpid
    cases hpid
  | dropTgid _ _ htgid =>
    rw [retargetedTgid, hctrl] at htgid
    cases htgid
  | noSlot _ _ _ hnone => cases hnone
  | emit mem _ _ _ hmem =>
    rw [hsel]
    refine ⟨⟨hctrl, Or.inr ⟨_, State.put_lookup_self _ _ _, rfl, rfl, ?_⟩⟩, _, rfl, rfl, rfl, ?_,
      ?_, ?_⟩
    · show (q.procCount + q.count) % 2 ^ 32 = _
      rw [hproc, hcount, htotal]
    · rw [SyscallSeq.fill_count, SyscallSeq.total_count, SyscallSeq.charge_count, hcount]
    · rw [SyscallSeq.fill_sumDelay, SyscallSeq.total_sumDelay, SyscallSeq.charge_sumDelay, hsum,
        UInt64.zero_add]
    · show (q.procCount + q.count) % 2 ^ 32 = _
      rw [hproc, hcount, htotal]

theorem singles_succ (n : Nat) : singles (n + 1) =
    (singles n ++ [Event.sysEnter caller (UInt64.ofNat (2 * n + 1)) 0 true]) ++
      [.sysExit caller (UInt64.ofNat (2 * n + 2)) (some .zero)] := by
  rw [List.append_assoc]
  rfl

/-- One more call. -/
theorem singles_next (h : Made n ((machine ⟨1, []⟩ everyCall).exec (singles n))) :
    Made (n + 1) ((machine ⟨1, []⟩ everyCall).exec (singles (n + 1))) ∧
    ∃ r, (machine ⟨1, []⟩ everyCall).emits
        (singles n ++ [Event.sysEnter caller (UInt64.ofNat (2 * n + 1)) 0 true])
        (.sysExit caller (UInt64.ofNat (2 * n + 2)) (some .zero)) = [r] ∧
      (machine ⟨1, []⟩ everyCall).emitted (singles (n + 1)) =
        (machine ⟨1, []⟩ everyCall).emitted (singles n) ++ [r] ∧
      r.pid = 5 ∧ r.tgid = 4 ∧ r.count = 1 ∧ r.sumDelay = 1 ∧
      r.procCount = (n + 1) % 2 ^ 32 := by
  obtain ⟨hctrl, q, hl, hcount, hsum, htime, hproc⟩ := h.enter (UInt64.ofNat (2 * n + 1))
  obtain ⟨hmade, r, hout, hpid, htgid, hcount', hdelay, hproc'⟩ :=
    Made.exit hctrl hl hcount hsum hproc (UInt64.ofNat (2 * n + 2))
  have hone : UInt64.ofNat (2 * n + 2) - UInt64.ofNat (2 * n + 1) = 1 := by
    rw [UInt64.ofNat_add (2 * n + 1) 1, UInt64.add_comm]
    exact UInt64.add_sub_cancel _ _
  have hexec : (machine ⟨1, []⟩ everyCall).exec
      (singles n ++ [Event.sysEnter caller (UInt64.ofNat (2 * n + 1)) 0 true]) =
        sysEnter ⟨1, []⟩ ((machine ⟨1, []⟩ everyCall).exec (singles n)) caller
          (UInt64.ofNat (2 * n + 1)) 0 true := Machine.exec_snoc _ _ _
  have hemits : (machine ⟨1, []⟩ everyCall).emits
      (singles n ++ [Event.sysEnter caller (UInt64.ofNat (2 * n + 1)) 0 true])
      (.sysExit caller (UInt64.ofNat (2 * n + 2)) (some .zero)) = [r] := by
    rw [← hexec] at hout
    exact hout
  have hnone : (machine ⟨1, []⟩ everyCall).emits (singles n)
      (.sysEnter caller (UInt64.ofNat (2 * n + 1)) 0 true) = [] := rfl
  rw [htime, hone] at hdelay
  rw [singles_succ, Machine.exec_snoc, hexec, Machine.emitted_snoc, Machine.emitted_snoc, hemits,
    hnone, List.append_nil]
  exact ⟨hmade, r, rfl, rfl, hpid, htgid, hcount', hdelay, hproc'⟩

theorem singles_made (n : Nat) :
    Made n ((machine ⟨1, []⟩ everyCall).exec (singles n)) ∧
    (((machine ⟨1, []⟩ everyCall).emitted (singles n)).map fun r => r.sumDelay.toNat).sum = n ∧
    (((machine ⟨1, []⟩ everyCall).emitted (singles n)).map SyscallSeq.count).sum = n := by
  induction n with
  | zero => exact ⟨⟨rfl, Or.inl ⟨rfl, rfl⟩⟩, rfl, rfl⟩
  | succ n ih =>
    obtain ⟨hmade, hdelay, hcount⟩ := ih
    obtain ⟨hnext, r, -, hout, -, -, hone, hsum, -⟩ := singles_next hmade
    refine ⟨hnext, ?_, ?_⟩
    · rw [hout, List.map_append, List.sum_append, hdelay, List.map_singleton, List.sum_singleton,
        hsum]
      rfl
    · rw [hout, List.map_append, List.sum_append, hcount, List.map_singleton, List.sum_singleton,
        hone]

theorem singles_alternating (n : Nat) (p : Int) : Alternating (view p) (singles n) ∧
    ∀ k, (((singles n).filterMap (view p)).map Probe.isEnter).getLast? = some k → k = false := by
  induction n with
  | zero =>
    refine ⟨List.isChain_nil, fun k hk => ?_⟩
    cases hk
  | succ n ih =>
    rw [singles_succ]
    by_cases hp : p = 5
    · have henter : view p (.sysEnter caller (UInt64.ofNat (2 * n + 1)) 0 true) =
          some (.enter (0, UInt64.ofNat (2 * n + 1))) := if_pos hp.symm
      have hexit : view p (.sysExit caller (UInt64.ofNat (2 * n + 2)) (some .zero)) =
          some (.exit (UInt64.ofNat (2 * n + 2))) := if_pos hp.symm
      refine ⟨(ih.1.snoc henter fun k hk => ?_).snoc hexit fun k hk => ?_, fun k hk => ?_⟩
      · rw [ih.2 k hk]
        exact Bool.false_ne_true
      · rw [List.filterMap_append, List.filterMap_cons_some henter, List.map_append,
          List.filterMap_nil, List.map_singleton, List.getLast?_concat] at hk
        cases hk
        exact Ne.symm Bool.false_ne_true
      · rw [List.filterMap_append, List.filterMap_cons_some hexit, List.map_append,
          List.filterMap_nil, List.map_singleton, List.getLast?_concat] at hk
        cases hk
        rfl
    · have hnone : ∀ e ∈ [Event.sysEnter caller (UInt64.ofNat (2 * n + 1)) 0 true,
          .sysExit caller (UInt64.ofNat (2 * n + 2)) (some .zero)], view p e = none := by
        intro e he
        have hne : ¬(5 : Int) = p := fun h => hp h.symm
        simp only [List.mem_cons, List.not_mem_nil, or_false] at he
        rcases he with rfl | rfl
        · exact if_neg hne
        · exact if_neg hne
      have hsame : (singles (n + 1)).filterMap (view p) = (singles n).filterMap (view p) := by
        show (singles n ++ _).filterMap (view p) = _
        rw [List.filterMap_append, List.filterMap_eq_nil_iff.mpr hnone, List.append_nil]
      rw [← singles_succ]
      unfold Alternating at ih ⊢
      rw [hsame]
      exact ih

theorem singles_times (n : Nat) (hn : n ≤ 2 ^ 32) : StrictClock (singles n) ∧
    ∀ t ∈ (singles n).filterMap Event.time, t.toNat ≤ 2 * n := by
  induction n with
  | zero =>
    refine ⟨List.Pairwise.nil, fun t ht => ?_⟩
    cases ht
  | succ n ih =>
    obtain ⟨hclock, hle⟩ := ih (by omega)
    have hfirst : (UInt64.ofNat (2 * n + 1)).toNat = 2 * n + 1 :=
      UInt64.toNat_ofNat_of_lt' (Nat.lt_of_le_of_lt (by omega : 2 * n + 1 ≤ 2 ^ 34) (by decide))
    have hsecond : (UInt64.ofNat (2 * n + 2)).toNat = 2 * n + 2 :=
      UInt64.toNat_ofNat_of_lt' (Nat.lt_of_le_of_lt (by omega : 2 * n + 2 ≤ 2 ^ 34) (by decide))
    have htimes : (singles (n + 1)).filterMap Event.time = (singles n).filterMap Event.time ++
        [UInt64.ofNat (2 * n + 1), UInt64.ofNat (2 * n + 2)] :=
      List.filterMap_append
    unfold StrictClock at hclock ⊢
    rw [htimes]
    refine ⟨List.pairwise_append.mpr ⟨hclock, ?_, ?_⟩, fun t ht => ?_⟩
    · rw [List.pairwise_pair, UInt64.lt_iff_toNat_lt, hfirst, hsecond]
      omega
    · intro t ht t' ht'
      have hbound := hle t ht
      rw [UInt64.lt_iff_toNat_lt]
      simp only [List.mem_cons, List.not_mem_nil, or_false] at ht'
      rcases ht' with rfl | rfl
      · omega
      · omega
    · rcases List.mem_append.mp ht with ht | ht
      · have hbound := hle t ht
        omega
      · simp only [List.mem_cons, List.not_mem_nil, or_false] at ht
        rcases ht with rfl | rfl
        · omega
        · omega

theorem singles_tasks (n : Nat) : ∀ e ∈ singles n, Steady (fun _ => 4) e ∧
    e.task = some caller := by
  induction n with
  | zero =>
    intro e he
    cases he
  | succ n ih =>
    intro e he
    rcases List.mem_append.mp he with he | he
    · exact ih e he
    · simp only [List.mem_cons, List.not_mem_nil, or_false] at he
      rcases he with rfl | rfl
      · exact ⟨⟨rfl, rfl⟩, rfl⟩
      · exact ⟨⟨rfl, rfl⟩, rfl⟩

theorem singles_measured (hn : n ≤ 2 ^ 32) :
    MeasuredRun ⟨1, []⟩ everyCall (fun _ => 4) (singles n) where
  steady :=
    { scFunc := rfl
      isContainer := rfl
      syscalls := by decide
      steady := fun e he => (singles_tasks n e he).1
      alternating := fun p => (singles_alternating n p).1 }
  oneTarget := Or.inl rfl
  ids e he cur hcur := by
    rw [(singles_tasks n e he).2] at hcur
    cases hcur
    decide
  strict := (singles_times n hn).1
  sumDelay := by
    rw [(singles_made n).2.1]
    exact Nat.lt_of_le_of_lt hn (by decide)
  sumCount := by
    rw [(singles_made n).2.2]
    exact Nat.lt_of_le_of_lt hn (by decide)

/-- After `2 ^ 32` calls `proc_count` is 0 again. -/
theorem singles_wrong (hn : n + 1 = 2 ^ 32) :
    ¬Throughout (TotalsRight ⟨1, []⟩ everyCall) (singles (n + 1)) := by
  intro h
  obtain ⟨-, r, hemits, -, hpid, htgid, hcount, -, hproc⟩ := singles_next (singles_made n).1
  rw [singles_succ] at h
  have hmem : r ∈ (machine ⟨1, []⟩ everyCall).emits
      (singles n ++ [Event.sysEnter caller (UInt64.ofNat (2 * n + 1)) 0 true])
      (.sysExit caller (UInt64.ofNat (2 * n + 2)) (some .zero)) := by
    rw [hemits]
    exact List.mem_singleton_self r
  obtain ⟨b, hkept, hlen, -, hkeptLen, -⟩ := h.last.1 r hmem (by rw [hpid, htgid]; decide)
  rw [hkept, List.length_append, ← hlen, hcount, hproc, hn, Nat.mod_self] at hkeptLen
  omega

theorem singles_wrap :
    MeasuredRun ⟨1, []⟩ everyCall (fun _ => 4) (singles (2 ^ 32)) ∧
      ¬Throughout (TotalsRight ⟨1, []⟩ everyCall) (singles (2 ^ 32)) := by
  obtain ⟨n, hn⟩ : ∃ n, n + 1 = 2 ^ 32 := ⟨2 ^ 32 - 1, by decide⟩
  rw [← hn]
  exact ⟨singles_measured (Nat.le_of_eq hn), singles_wrong hn⟩

end Wrap

end CpuSubsystem.SyscallImage
