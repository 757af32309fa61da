import CpuSubsystem.ProcImage.SyscallImage.Probes
import CpuSubsystem.ProcImage.SyscallImage.Table

/-!
# The bounds of a batch

`count` is raised by `sys_enter` and compared in `sys_exit` with a limit that the controller can
change at any moment.  It stays within the array all the same, and a batch that is sent is not
empty, so that the user side has something to divide by.
-/

namespace CpuSubsystem.SyscallImage

/-- What the controller's `parse_arg` admits. -/
def ScCtrl.Admitted (c : ScCtrl) : Prop := c.scFunc = true → 1 ≤ c.syscalls ∧ c.syscalls ≤ 50

instance (c : ScCtrl) : Decidable c.Admitted := inferInstanceAs (Decidable (_ → _))

/-- The controller writes admitted values only. -/
def Event.Admitted : Event → Prop
  | .scCtrl c => c.Admitted
  | _ => True

instance : DecidablePred Event.Admitted
  | .scCtrl c => inferInstanceAs (Decidable c.Admitted)
  | .sysEnter .. | .sysExit .. | .schedProcessExit .. => isTrue trivial

/-- The index of `record_syscall` that `sys_enter` writes for a selected thread. -/
def SyscallSeq.enterIndex (seq : SyscallSeq) : Option Nat :=
  if seq.count = 0 then some seq.count
  else if seq.count ≤ maxSyscallCount - 1 ∧ seq.count > 0 then some seq.count
  else none

/-- The indices that the copy loop of `sys_exit` goes through. -/
def copyIndices (count : Nat) : List Nat :=
  (List.range maxSyscallCount).filter fun i => i ≤ (count + (2 ^ 32 - 1)) % 2 ^ 32

/-- The indices of `record_syscall` at which the event reads or writes. -/
def accessed (ro : Rodata) (s : State) : Event → List Nat
  | .sysEnter cur _ _ _ =>
    if traced ro s.scCtrlMap cur && selected s.scCtrlMap cur.pid cur.tgid then
      match s.procSyscall.lookup cur.pid with
      | none => [0]
      | some seq => seq.enterIndex.toList
    else []
  | .sysExit cur now slot => (sysExit ro s cur now slot).2.flatMap fun r => copyIndices r.count
  | .scCtrl _ | .schedProcessExit _ => []

section Entry

variable {seq : SyscallSeq} {i : Nat}

theorem enterIndex_lt (h : seq.enterIndex = some i) : i < maxSyscallCount := by
  unfold SyscallSeq.enterIndex at h
  split at h
  · rename_i hzero
    cases h
    rw [hzero]
    decide
  · split at h
    · rename_i hle
      cases h
      exact Nat.lt_of_le_pred (by decide) hle.1
    · cases h

/-- `sys_enter` writes the number of the call at this index and nothing elsewhere. -/
theorem enter_recordSyscall (seq : SyscallSeq) (now : UInt64) (id : Int) (i : Nat)
    (hi : i < maxSyscallCount) :
    (seq.enter true now id).recordSyscall[i] =
      if seq.enterIndex = some i then toInt id else seq.recordSyscall[i] := by
  by_cases hlt : seq.count < maxSyscallCount
  · have hindex : seq.enterIndex = some seq.count := by
      unfold SyscallSeq.enterIndex
      split
      · rfl
      · rename_i hpos
        rw [if_pos ⟨Nat.le_pred_of_lt hlt, Nat.pos_of_ne_zero hpos⟩]
    rw [SyscallSeq.enter_of_lt seq true now id hlt, hindex]
    simp only [SyscallSeq.append, if_true, Vector.getElem_set, Option.some.injEq]
  · have hindex : seq.enterIndex = none := by
      unfold SyscallSeq.enterIndex
      have hmax : maxSyscallCount = 50 := rfl
      rw [if_neg (by omega), if_neg (by omega)]
    rw [SyscallSeq.enter_of_full seq true now id hlt, hindex, if_neg (by simp)]

/-- The loop copies the batch and no more, unless the batch is empty. -/
theorem copyIndices_eq {count : Nat} (hpos : 1 ≤ count) (hle : count ≤ maxSyscallCount) :
    copyIndices count = List.range count := by
  have hmax : maxSyscallCount = 50 := rfl
  have hloop : ∀ i ∈ List.range maxSyscallCount,
      decide (i ≤ (count + (2 ^ 32 - 1)) % 2 ^ 32) = decide (i < count) := by
    intro i _
    rw [decide_eq_decide]
    omega
  -- `count - 1` does not wrap, as the batch is not empty
  rw [copyIndices, List.filter_congr hloop]
  obtain ⟨k, hk⟩ := Nat.exists_eq_add_of_le hle
  rw [hk, List.range_add, List.filter_append]
  have hall : (List.range count).filter (fun i => decide (i < count)) = List.range count :=
    List.filter_eq_self.mpr fun i hi => decide_eq_true (List.mem_range.mp hi)
  have hnone : ((List.range k).map (count + ·)).filter (fun i => decide (i < count)) = [] := by
    rw [List.filter_eq_nil_iff]
    intro i hi
    obtain ⟨j, -, rfl⟩ := List.mem_map.mp hi
    simp
  rw [hall, hnone, List.append_nil]

end Entry

/-- The limit is admitted, and no batch is longer than the array. -/
structure State.Bounded (s : State) : Prop where
  ctrl : s.scCtrlMap.Admitted
  count : ∀ p seq, s.procSyscall.lookup p = some seq → seq.count ≤ maxSyscallCount

/-- A record that can be sent: not empty, and not longer than the array. -/
def SyscallSeq.Sized (r : SyscallSeq) : Prop := 1 ≤ r.count ∧ r.count ≤ maxSyscallCount

section Steps

variable {ro : Rodata} {s : State} {cur : Task} {now : UInt64} {id : Int} {room : Bool}
variable {slot : Option SyscallSeq} {seq : SyscallSeq}

theorem State.Bounded.put (h : s.Bounded) (p : Int) (hseq : seq.count ≤ maxSyscallCount) :
    (s.put p seq).Bounded where
  ctrl := h.ctrl
  count := BpfMap.forall_store h.count p hseq

theorem State.Bounded.sysEnter (h : s.Bounded) : (sysEnter ro s cur now id room).Bounded := by
  rcases sysEnter_cases ro s cur now id room with hs | ⟨-, -, -, hs⟩ | ⟨seq, -, hl, hs⟩
  · rw [hs]
    exact h
  · rw [hs]
    apply h.put
    rw [SyscallSeq.create_count]
    decide
  · rw [hs]
    exact h.put cur.pid (SyscallSeq.enter_count_le (h.count _ _ hl) _ now id)

theorem traced_scFunc {c : ScCtrl} (h : traced ro c cur = true) : c.scFunc = true := by
  simp only [traced, Bool.and_eq_true] at h
  exact h.1.1

/-- The limit is at least 1, so that a batch that reaches it is not empty. -/
theorem State.Bounded.sized (h : s.Bounded) (ht : traced ro s.scCtrlMap cur = true)
    (hle : seq.count ≤ maxSyscallCount)
    (hfull : ¬seq.count < toUnsigned s.scCtrlMap.syscalls) : seq.Sized := by
  obtain ⟨hlo, hhi⟩ := h.ctrl (traced_scFunc ht)
  refine ⟨?_, hle⟩
  have hlimit : 1 ≤ toUnsigned s.scCtrlMap.syscalls := by
    unfold toUnsigned
    omega
  omega

theorem State.Bounded.sysExit (h : s.Bounded) :
    (sysExit ro s cur now slot).1.Bounded ∧ ∀ r ∈ (sysExit ro s cur now slot).2, r.Sized := by
  have hcharged : ∀ seq, s.procSyscall.lookup cur.pid = some seq →
      (seq.charge (now - seq.enterTime)).count ≤ maxSyscallCount := by
    intro seq hl
    rw [SyscallSeq.charge_count]
    exact h.count _ _ hl
  constructor
  · rcases sysExit_cases ro s cur now slot with hsame | ⟨seq, -, hl, hc⟩
    · rw [hsame]
      exact h
    · have hle := hcharged seq hl
      have hreset : (s.put cur.pid (seq.charge (now - seq.enterTime)).reset).Bounded :=
        h.put cur.pid (Nat.zero_le _)
      have htotal : ∀ sel, ((seq.charge (now - seq.enterTime)).total sel).count ≤
          maxSyscallCount := by
        intro sel
        rw [SyscallSeq.total_count]
        exact hle
      generalize SyscallImage.sysExit ro s cur now slot = res at hc ⊢
      cases hc with
      | more _ => exact h.put _ hle
      | dropPid _ _ => exact ⟨hreset.ctrl, hreset.count⟩
      | dropTgid _ _ _ => exact ⟨hreset.ctrl, hreset.count⟩
      | noSlot _ _ _ _ => exact h.put _ (htotal _)
      | emit mem _ _ _ _ => exact h.put _ (Nat.zero_le _)
  · intro r hr
    obtain ⟨seq, mem, ht, hl, hclosed, -, -, -, rfl⟩ := sysExit_emits ro s cur now slot hr
    rw [SyscallSeq.Sized, SyscallSeq.fill_count, SyscallSeq.total_count, SyscallSeq.charge_count]
    exact h.sized ht (h.count _ _ hl) hclosed

theorem State.Bounded.step (h : s.Bounded) {e : Event} (he : e.Admitted) :
    (step ro s e).1.Bounded ∧ ∀ r ∈ (step ro s e).2, r.Sized := by
  have hnone : ∀ r ∈ ([] : List SyscallSeq), r.Sized := fun r hr => absurd hr List.not_mem_nil
  cases e with
  | scCtrl c => exact ⟨⟨he, h.count⟩, hnone⟩
  | sysEnter cur now id room => exact ⟨h.sysEnter, hnone⟩
  | sysExit cur now slot => exact h.sysExit
  | schedProcessExit cur =>
    refine ⟨?_, hnone⟩
    show (schedProcessExit s cur).Bounded
    unfold schedProcessExit
    split
    · exact ⟨h.ctrl, BpfMap.forall_delete h.count cur.pid⟩
    · exact h

/-- In a bounded state no access is outside the array. -/
theorem State.Bounded.accessed (h : s.Bounded) (e : Event) {i : Nat} (hi : i ∈ accessed ro s e) :
    i < maxSyscallCount := by
  cases e with
  | sysEnter cur now id room =>
    simp only [SyscallImage.accessed] at hi
    split at hi
    · cases hl : s.procSyscall.lookup cur.pid with
      | none =>
        rw [hl] at hi
        rw [List.mem_singleton.mp hi]
        decide
      | some seq =>
        rw [hl] at hi
        exact enterIndex_lt (Option.mem_toList.mp hi)
    · cases hi
  | sysExit cur now slot =>
    obtain ⟨r, hr, hi⟩ := List.mem_flatMap.mp hi
    obtain ⟨hpos, hle⟩ := h.sysExit.2 r hr
    rw [copyIndices_eq hpos hle, List.mem_range] at hi
    exact Nat.lt_of_lt_of_le hi hle
  | scCtrl c => cases hi
  | schedProcessExit cur => cases hi

end Steps

section Reader

variable {env : Env} {es : List SyscallSeq} {rs : List (ScCtrl × SyscallSeq)}

theorem addAll_sumCount (env : Env) (es : List SyscallSeq) :
    (env.addAll es).sumCount = env.sumCount + UInt64.ofNat (es.map SyscallSeq.count).sum := by
  induction es generalizing env with
  | nil => exact (UInt64.add_zero _).symm
  | cons e es ih =>
    rw [List.map_cons, List.sum_cons, UInt64.ofNat_add, ← UInt64.add_assoc]
    exact ih (env.add e)

/-- When the next record is added, there is something to divide by. -/
theorem divide_ok {c : ScCtrl} {r : SyscallSeq} (hrun : printAll Env.initial rs = .ok env)
    (hpos : 1 ≤ r.count)
    (hsum : ((consumed (rs ++ [(c, r)])).map SyscallSeq.count).sum < 2 ^ 64)
    (hc : c.scFunc = true) :
    0 < (env.add r).sumCount ∧ divide (env.add r).sumDelay (env.add r).sumCount =
      .ok ((env.add r).sumDelay / (env.add r).sumCount) := by
  obtain ⟨m, rfl⟩ := printAll_totals hrun
  have hall : consumed (rs ++ [(c, r)]) = consumed rs ++ [r] := by
    simp [consumed, hc]
  rw [hall] at hsum
  have hcount : (({ Env.initial.addAll (consumed rs) with map := m } : Env).add r).sumCount =
      UInt64.ofNat ((consumed rs ++ [r]).map SyscallSeq.count).sum := by
    show ((Env.initial.addAll (consumed rs)).add r).sumCount = _
    have hadd := addAll_sumCount Env.initial (consumed rs ++ [r])
    rw [Env.addAll, List.foldl_append] at hadd
    rw [← UInt64.zero_add (UInt64.ofNat _)]
    exact hadd
  have hlt : 0 < (({ Env.initial.addAll (consumed rs) with map := m } : Env).add r).sumCount := by
    rw [hcount, UInt64.lt_iff_toNat_lt, UInt64.toNat_ofNat_of_lt' hsum]
    rw [List.map_append, List.sum_append, List.map_singleton, List.sum_singleton]
    exact Nat.lt_of_lt_of_le hpos (Nat.le_add_left _ _)
  refine ⟨hlt, ?_⟩
  rw [divide, if_neg]
  intro hzero
  rw [hzero] at hlt
  exact absurd hlt (by decide)

end Reader

/-- Under every history of admitted control values and every pattern of failures: batches fit in the
array, all accesses to it are within bounds, no batch that is sent is empty, and the user side has
something to divide by from the first record on. -/
theorem counts_bounded (ro : Rodata) (c : ScCtrl) (tr : List Event) (hc : c.Admitted)
    (h : ∀ e ∈ tr, e.Admitted) :
    (∀ pre, pre <+: tr → ∀ p seq, ((machine ro c).exec pre).procSyscall.lookup p = some seq →
      seq.count ≤ maxSyscallCount) ∧
    Throughout (fun pre e => ∀ i ∈ accessed ro ((machine ro c).exec pre) e, i < maxSyscallCount)
      tr ∧
    (∀ r ∈ (machine ro c).emitted tr, r.Sized ∧ ∀ i < r.count, ∃ id, r.recordAt i = .ok id) ∧
    ∀ (rs : List (ScCtrl × SyscallSeq)) (c' : ScCtrl) (r : SyscallSeq) (env : Env),
      (∀ x ∈ rs ++ [(c', r)], x.2 ∈ (machine ro c).emitted tr) →
      ((consumed (rs ++ [(c', r)])).map SyscallSeq.count).sum < 2 ^ 64 →
      printAll Env.initial rs = .ok env → c'.scFunc = true →
      0 < (env.add r).sumCount ∧ divide (env.add r).sumDelay (env.add r).sumCount =
        .ok ((env.add r).sumDelay / (env.add r).sumCount) := by
  have hinit : (machine ro c).init.Bounded := ⟨hc, fun p seq hl => by cases hl⟩
  have hrun : ∀ pre, pre <+: tr → ((machine ro c).exec pre).Bounded := by
    intro pre hp
    exact (machine ro c).invariant_of_steps (P := State.Bounded) (Q := fun _ e => e.Admitted) hinit
      (fun s e hs he => (hs.step he).1) fun pre' e hp' =>
        h e ((hp'.trans hp).subset (List.mem_append_right _ (List.mem_singleton_self e)))
  have hsized : ∀ r ∈ (machine ro c).emitted tr, r.Sized := by
    intro r hr
    obtain ⟨pre, e, hp, hre⟩ := (machine ro c).mem_emitted hr
    have hpre := hrun pre ((List.prefix_append pre [e]).trans hp)
    exact (hpre.step (h e (hp.subset (List.mem_append_right _ (List.mem_singleton_self e))))).2
      r hre
  refine ⟨fun pre hp => (hrun pre hp).count, fun pre e hp i hi => ?_, fun r hr => ?_,
    fun rs c' r env hrs hsum hrun' hon => ?_⟩
  · exact (hrun pre ((List.prefix_append pre [e]).trans hp)).accessed e hi
  · refine ⟨hsized r hr, fun i hi => ?_⟩
    have hlt : i < maxSyscallCount := Nat.lt_of_lt_of_le hi (hsized r hr).2
    exact ⟨_, dif_pos hlt⟩
  · have hr := hsized r (hrs (c', r) (List.mem_append_right _ (List.mem_singleton_self _)))
    exact divide_ok hrun' hr.1 hsum hon

section Sample

/-- Batches of `n` calls for the thread 5, or the image is off. -/
def limited (on : Bool) (n : Int) : ScCtrl where
  scFunc := on
  enableMyproc := true
  isContainer := false
  targetPid := 5
  targetTgid := -1
  syscalls := n

/-- The limit is lowered below the count, a reservation fails, the image is off for a while. -/
def lowered : List Event :=
  [.sysEnter ⟨5, 4, none⟩ 100 0 true, .sysExit ⟨5, 4, none⟩ 110 none,
    .sysEnter ⟨5, 4, none⟩ 120 1 true, .scCtrl (limited true 1),
    .sysExit ⟨5, 4, none⟩ 130 none, .sysEnter ⟨5, 4, none⟩ 140 2 true,
    .sysExit ⟨5, 4, none⟩ 150 none, .scCtrl (limited false 0), .schedProcessExit ⟨5, 4, none⟩,
    .scCtrl (limited true 2), .sysEnter ⟨5, 4, none⟩ 160 3 true,
    .sysExit ⟨5, 4, none⟩ 170 (some .zero)]

theorem counts_bounded_lowered :
    (∀ pre, pre <+: lowered → ∀ p seq,
      ((machine ⟨1, []⟩ (limited true 3)).exec pre).procSyscall.lookup p = some seq →
      seq.count ≤ maxSyscallCount) ∧
    Throughout (fun pre e =>
      ∀ i ∈ accessed ⟨1, []⟩ ((machine ⟨1, []⟩ (limited true 3)).exec pre) e,
        i < maxSyscallCount) lowered ∧
    (∀ r ∈ (machine ⟨1, []⟩ (limited true 3)).emitted lowered,
      r.Sized ∧ ∀ i < r.count, ∃ id, r.recordAt i = .ok id) ∧
    ∀ (rs : List (ScCtrl × SyscallSeq)) (c' : ScCtrl) (r : SyscallSeq) (env : Env),
      (∀ x ∈ rs ++ [(c', r)], x.2 ∈ (machine ⟨1, []⟩ (limited true 3)).emitted lowered) →
      ((consumed (rs ++ [(c', r)])).map SyscallSeq.count).sum < 2 ^ 64 →
      printAll Env.initial rs = .ok env → c'.scFunc = true →
      0 < (env.add r).sumCount ∧ divide (env.add r).sumDelay (env.add r).sumCount =
        .ok ((env.add r).sumDelay / (env.add r).sumCount) :=
  counts_bounded ⟨1, []⟩ (limited true 3) lowered (by decide) (by decide)

end Sample

end CpuSubsystem.SyscallImage
