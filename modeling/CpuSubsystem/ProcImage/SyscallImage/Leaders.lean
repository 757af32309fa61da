import CpuSubsystem.Lib.Podium
import CpuSubsystem.ProcImage.SyscallImage.Probes
import CpuSubsystem.ProcImage.SyscallImage.Table

/-!
# The three syscalls that occurred most

The table of a process is a podium that starts with the syscall number 0 on all three places.  From
any table that three numbers lead, every batch comes to such a table again.
-/

namespace CpuSubsystem.SyscallImage

/-- The table shows the counts and the places of the podium. -/
structure Shows (t : ProcSyscallInfo) (p : Podium Int) : Prop where
  inRange : t.InRange
  first : t.firstSyscall = p.first
  second : t.secondSyscall = p.second
  third : t.thirdSyscall = p.third
  num : ∀ i, InTable i → ∃ n, t.num i = .ok n ∧ n.toNat = p.count i

variable {t : ProcSyscallInfo} {p : Podium Int} {exc : Fault → Prop}

theorem Shows.meets_num (h : Shows t p) {i : Int} (hi : InTable i) :
    Meets exc (fun n => n.toNat = p.count i) (t.num i) := by
  obtain ⟨n, hn, hcount⟩ := h.num i hi
  rw [hn]
  exact hcount

theorem get_set {n : Nat} (v : Vector UInt32 n) {i j : Nat} (hi : i < n) (hj : j < n) (x : UInt32) :
    (v.set i x hi).get ⟨j, hj⟩ = if i = j then x else v.get ⟨j, hj⟩ := Vector.getElem_set hi hj

theorem Shows.incr (h : Shows t p) {id : Int} (hid : InTable id) (hlt : p.count id + 1 < 2 ^ 32) :
    Meets exc (fun t' => Shows t' (p.incr id)) (t.incr id) := by
  rw [ProcSyscallInfo.incr, dif_pos hid]
  refine ⟨⟨h.inRange.first, h.inRange.second, h.inRange.third⟩, h.first, h.second, h.third,
    fun i hi => ?_⟩
  obtain ⟨n, hn, hcount⟩ := h.num i hi
  rw [ProcSyscallInfo.num, dif_pos hi] at hn
  cases hn
  rw [ProcSyscallInfo.num, dif_pos hi]
  refine ⟨_, rfl, ?_⟩
  rw [get_set]
  by_cases heq : i = id
  · subst heq
    -- the counter of 32 bits is not at its end
    rw [if_pos rfl, p.incr_count_self, UInt32.toNat_add, hcount]
    exact Nat.mod_eq_of_lt hlt
  · have hne : id.toNat ≠ i.toNat := by
      have hi₀ := hi.1
      have hid₀ := hid.1
      omega
    rw [if_neg hne, p.incr_count_of_ne heq, hcount]

theorem Shows.sortSecond (h : Shows t p) :
    Meets exc (fun t' => Shows t' p.sortSecond) t.sortSecond := by
  apply (h.meets_num h.inRange.third).bind
  intro third hthird
  apply (h.meets_num h.inRange.second).bind
  intro second hsecond
  rw [h.third] at hthird
  rw [h.second] at hsecond
  unfold Podium.sortSecond
  rw [← hthird, ← hsecond]
  simp only [gt_iff_lt, UInt32.lt_iff_toNat_lt]
  split
  · exact ⟨⟨h.inRange.first, h.inRange.third, h.inRange.second⟩, h.first, h.third, h.second, h.num⟩
  · exact h

theorem Shows.sortFirst (h : Shows t p) :
    Meets exc (fun t' => Shows t' p.sortFirst) t.sortFirst := by
  apply (h.meets_num h.inRange.second).bind
  intro second hsecond
  apply (h.meets_num h.inRange.first).bind
  intro first hfirst
  rw [h.second] at hsecond
  rw [h.first] at hfirst
  unfold Podium.sortFirst
  rw [← hsecond, ← hfirst]
  simp only [gt_iff_lt, UInt32.lt_iff_toNat_lt]
  split
  · exact ⟨⟨h.inRange.second, h.inRange.first, h.inRange.third⟩, h.second, h.first, h.third, h.num⟩
  · exact h

theorem Shows.rank (h : Shows t p) {id : Int} (hid : InTable id) :
    Meets exc (fun t' => Shows t' (p.rank id)) (t.rank id) := by
  apply (h.meets_num hid).bind
  intro n hn
  apply (h.meets_num h.inRange.third).bind
  intro third hthird
  rw [h.third] at hthird
  unfold Podium.rank
  rw [← hn, ← hthird]
  simp only [gt_iff_lt, UInt32.lt_iff_toNat_lt]
  split
  · apply (h.meets_num h.inRange.second).bind
    intro second hsecond
    rw [h.second] at hsecond
    rw [← hsecond]
    split
    · apply (h.meets_num h.inRange.first).bind
      intro first hfirst
      rw [h.first] at hfirst
      rw [← hfirst]
      split
      · exact ⟨⟨hid, h.inRange.first, h.inRange.second⟩, rfl, h.first, h.second, h.num⟩
      · exact ⟨⟨h.inRange.first, hid, h.inRange.second⟩, h.first, rfl, h.second, h.num⟩
    · exact ⟨⟨h.inRange.first, h.inRange.second, hid⟩, h.first, h.second, rfl, h.num⟩
  · exact h

/-- One iteration of the loop is an update of the podium. -/
theorem Shows.update (h : Shows t p) {id : Int} (hid : InTable id)
    (hlt : p.count id + 1 < 2 ^ 32) :
    Meets exc (fun t' => Shows t' (p.update id)) (t.update id) := by
  apply (h.incr hid hlt).bind
  intro t' ht'
  unfold Podium.update
  simp only [ht'.first, ht'.second, ht'.third]
  split
  · apply ht'.sortSecond.bind
    intro t₁ h₁
    apply h₁.sortFirst.bind
    intro t₂ h₂
    exact h₂.sortSecond
  · exact ht'.rank hid

theorem recordAt_eq {e : SyscallSeq} {i : Nat} (hi : i < maxSyscallCount) :
    e.recordAt i = .ok e.recordSyscall[i] := dif_pos hi

/-- The loop goes through the recorded numbers. -/
theorem updateSyscalls_eq (t : ProcSyscallInfo) {e : SyscallSeq} (he : e.count ≤ maxSyscallCount) :
    updateSyscalls t e = e.recorded.foldlM ProcSyscallInfo.update t := by
  unfold updateSyscalls SyscallSeq.recorded
  generalize e.count = n at he
  induction n with
  | zero => rfl
  | succ n ih =>
    have hn : n < maxSyscallCount := by omega
    have hlen : n < e.recordSyscall.toList.length := by
      rw [Vector.length_toList]
      exact hn
    rw [List.range_succ, List.foldlM_append, ih (by omega), List.take_succ_eq_append_getElem hlen,
      List.foldlM_append]
    congr 1
    funext t'
    rw [List.foldlM_cons, List.foldlM_cons, recordAt_eq hn, Vector.getElem_toList]
    rfl

/-- The table of a process after these batches. -/
def updateAll (bs : List SyscallSeq) : Except Fault ProcSyscallInfo :=
  bs.foldlM updateSyscalls ProcSyscallInfo.zero

/-- The numbers in the order in which they occurred. -/
def occurred (bs : List SyscallSeq) : List Int := bs.flatMap SyscallSeq.recorded

theorem inTable_of_recorded {e : SyscallSeq} (he : e.InRange) {id : Int} (h : id ∈ e.recorded) :
    InTable id := by
  obtain ⟨i, hi, rfl⟩ := List.mem_iff_getElem.mp h
  unfold SyscallSeq.recorded at hi ⊢
  rw [List.length_take, Vector.length_toList] at hi
  rw [List.getElem_take, Vector.getElem_toList]
  exact he.inTable i (by omega) (by omega)

/-- The loop over a batch is a run of updates of the podium. -/
theorem Shows.updateSyscalls {e : SyscallSeq} (h : Shows t p) (he : e.InRange)
    (hno : ∀ i, p.count i + e.recorded.count i < 2 ^ 32) :
    Meets exc (fun t' => Shows t' (e.recorded.foldl Podium.update p))
      (SyscallImage.updateSyscalls t e) := by
  rw [updateSyscalls_eq t he.count]
  -- after `pre` of the batch the table shows the podium after `pre`
  apply meets_foldlM_prefix (I := fun pre t' => Shows t' (pre.foldl Podium.update p))
  · intro pre id t' hp hs
    rw [List.foldl_append]
    apply hs.update
    · apply inTable_of_recorded he
      exact hp.subset (List.mem_append_right _ (List.mem_singleton_self id))
    · have hle := hp.sublist.count_le id
      have hid := hno id
      rw [List.count_append, List.count_singleton_self] at hle
      rw [Podium.foldl_count]
      omega
  · exact h

theorem shows_zero : Shows ProcSyscallInfo.zero (Podium.start 0) where
  inRange := ProcSyscallInfo.zero_inRange
  first := rfl
  second := rfl
  third := rfl
  num i hi := by
    refine ⟨0, ?_, rfl⟩
    rw [ProcSyscallInfo.num, dif_pos hi]
    exact congrArg Except.ok (Vector.getElem_replicate hi.toNat_lt)

theorem shows_updateAll {bs : List SyscallSeq} (hin : ∀ e ∈ bs, e.InRange)
    (hno : ∀ i, (occurred bs).count i < 2 ^ 32) :
    Meets exc (fun t => Shows t (Podium.run 0 (occurred bs))) (updateAll bs) := by
  unfold updateAll
  apply meets_foldlM_prefix (I := fun pre t => Shows t (Podium.run 0 (occurred pre)))
  · intro pre e t' hp hs
    have hnum : occurred (pre ++ [e]) = occurred pre ++ e.recorded := by
      rw [occurred, List.flatMap_append, List.flatMap_singleton]
      rfl
    rw [hnum, Podium.run, List.foldl_append]
    apply hs.updateSyscalls
    · exact hin e (hp.subset (List.mem_append_right _ (List.mem_singleton_self e)))
    · intro i
      have hle := (hp.flatMap SyscallSeq.recorded).sublist.count_le i
      rw [Podium.run_count, ← List.count_append, ← hnum]
      exact Nat.lt_of_le_of_lt hle (hno i)
  · exact shows_zero

/-- The table counts the numbers, its three leaders are in the order of their counts, and no other
number occurred more often than the third. -/
structure Ranked (l : List Int) (t : ProcSyscallInfo) : Prop where
  counts : ∀ i, InTable i → ∃ n, t.num i = .ok n ∧ n.toNat = l.count i
  inRange : t.InRange
  second_le : l.count t.secondSyscall ≤ l.count t.firstSyscall
  third_le : l.count t.thirdSyscall ≤ l.count t.secondSyscall
  others : ∀ i, i ≠ t.firstSyscall → i ≠ t.secondSyscall → i ≠ t.thirdSyscall →
    l.count i ≤ l.count t.thirdSyscall

/-- The leaders are three numbers, once there are three. -/
structure TopThree (l : List Int) (t : ProcSyscallInfo) : Prop extends Ranked l t where
  distinct : 3 ≤ l.dedup.length →
    t.firstSyscall ≠ t.secondSyscall ∧ t.secondSyscall ≠ t.thirdSyscall ∧
      t.firstSyscall ≠ t.thirdSyscall

theorem Shows.ranked {l : List Int} (h : Shows t (Podium.run 0 l)) : Ranked l t := by
  obtain ⟨hsecond, hthird, hothers⟩ := Podium.ordered_run 0 l
  simp only [Podium.run_count, ← h.first, ← h.second, ← h.third] at hsecond hthird hothers
  refine ⟨fun i hi => ?_, h.inRange, hsecond, hthird, hothers⟩
  obtain ⟨n, hn, hcount⟩ := h.num i hi
  exact ⟨n, hn, hcount.trans (Podium.run_count 0 l i)⟩

/-- After any batches the table counts and ranks the numbers, and its leaders are as they should be
exactly when, if three numbers have occurred, two of them were ahead of the number 0 at the same
time: the places all begin as 0. -/
theorem top_three_iff (bs : List SyscallSeq) (hin : ∀ e ∈ bs, e.InRange)
    (hno : ∀ i, (occurred bs).count i < 2 ^ 32) :
    ∃ t, updateAll bs = .ok t ∧ Ranked (occurred bs) t ∧
      (TopThree (occurred bs) t ↔
        (3 ≤ (occurred bs).dedup.length → Podium.Overtaken 0 (occurred bs))) := by
  have hmeets : Meets (fun _ => False) (fun t => Shows t (Podium.run 0 (occurred bs)))
      (updateAll bs) := shows_updateAll hin hno
  cases hres : updateAll bs with
  | error f =>
    rw [hres] at hmeets
    exact hmeets.elim
  | ok t =>
    rw [hres] at hmeets
    have hshows : Shows t (Podium.run 0 (occurred bs)) := hmeets
    have hranked := hshows.ranked
    refine ⟨t, rfl, hranked, ?_⟩
    have hdistinct : (Podium.run 0 (occurred bs)).Distinct ↔
        t.firstSyscall ≠ t.secondSyscall ∧ t.secondSyscall ≠ t.thirdSyscall ∧
          t.firstSyscall ≠ t.thirdSyscall := by
      rw [hshows.first, hshows.second, hshows.third]
      exact ⟨fun h => ⟨h.1, h.2, h.3⟩, fun h => ⟨h.1, h.2.1, h.2.2⟩⟩
    rw [← Podium.distinct_run_iff, hdistinct]
    exact ⟨fun h => h.distinct, fun h => ⟨hranked, h⟩⟩

/-- A batch of these numbers. -/
def batchOf (ids : List Int) : SyscallSeq :=
  { SyscallSeq.zero with
    count := ids.length
    recordSyscall := Vector.ofFn fun i => ids.getD i 0 }

/-- The numbers 5 and 7 occur before 0 does. -/
def readLater : List SyscallSeq := [batchOf [5, 7], batchOf [0, 5]]

theorem top_three_iff_readLater :
    ∃ t, updateAll readLater = .ok t ∧ TopThree (occurred readLater) t := by
  have hno : ∀ i, (occurred readLater).count i < 2 ^ 32 := by
    intro i
    exact Nat.lt_of_le_of_lt List.count_le_length (by decide)
  obtain ⟨t, ht, -, hiff⟩ := top_three_iff readLater
    (List.forall_mem_cons.mpr ⟨⟨by decide, by decide⟩, List.forall_mem_singleton.mpr
      ⟨by decide, by decide⟩⟩) hno
  exact ⟨t, ht, hiff.mpr fun _ => ⟨[5, 7], by decide, 5, 7, by decide⟩⟩

/-- The number 0 occurs before a second other number is ahead of it. -/
def readEarly : List SyscallSeq := [batchOf [5, 0, 7]]

theorem readEarly_not_distinct :
    ¬ ∀ bs : List SyscallSeq, (∀ e ∈ bs, e.InRange) → (∀ i, (occurred bs).count i < 2 ^ 32) →
      ∃ t, updateAll bs = .ok t ∧ TopThree (occurred bs) t := by
  intro h
  have hin : ∀ e ∈ readEarly, e.InRange :=
    List.forall_mem_singleton.mpr ⟨by decide, by decide⟩
  have hno : ∀ i, (occurred readEarly).count i < 2 ^ 32 := by
    intro i
    exact Nat.lt_of_le_of_lt List.count_le_length (by decide)
  obtain ⟨t, ht, htop⟩ := h readEarly hin hno
  have hmeets : Meets (fun _ => False) (fun t => Shows t (Podium.run 0 (occurred readEarly)))
      (updateAll readEarly) := shows_updateAll hin hno
  rw [ht] at hmeets
  have hshows : Shows t (Podium.run 0 (occurred readEarly)) := hmeets
  -- 5 is the first, and 0 has the two places behind it
  have hthree := (htop.distinct (by decide)).2.1
  rw [hshows.second, hshows.third] at hthree
  revert hthree
  decide

/-! ## Any table -/

/-- The counter of a number; outside the table there is none. -/
def ProcSyscallInfo.counter (t : ProcSyscallInfo) (i : Int) : Nat :=
  match t.num i with
  | .ok n => n.toNat
  | .error _ => 0

/-- Three numbers lead the table: they differ, they are in the order of their counters, and no
other number has a counter above that of the third. -/
structure Leading (t : ProcSyscallInfo) : Prop extends t.InRange where
  first_second : t.firstSyscall ≠ t.secondSyscall
  second_third : t.secondSyscall ≠ t.thirdSyscall
  first_third : t.firstSyscall ≠ t.thirdSyscall
  second_le : t.counter t.secondSyscall ≤ t.counter t.firstSyscall
  third_le : t.counter t.thirdSyscall ≤ t.counter t.secondSyscall
  others : ∀ i, InTable i → i ≠ t.firstSyscall → i ≠ t.secondSyscall → i ≠ t.thirdSyscall →
    t.counter i ≤ t.counter t.thirdSyscall

/-- The podium that the table shows. -/
def ProcSyscallInfo.podium (t : ProcSyscallInfo) : Podium Int :=
  ⟨t.counter, t.firstSyscall, t.secondSyscall, t.thirdSyscall⟩

section AnyTable

theorem num_eq_ok (t : ProcSyscallInfo) {i : Int} (hi : InTable i) : ∃ n, t.num i = .ok n :=
  ⟨_, dif_pos hi⟩

theorem counter_of_not_inTable (t : ProcSyscallInfo) {i : Int} (hi : ¬ InTable i) :
    t.counter i = 0 := by
  rw [ProcSyscallInfo.counter, ProcSyscallInfo.num, dif_neg hi]

theorem shows_podium (ht : t.InRange) : Shows t t.podium where
  inRange := ht
  first := rfl
  second := rfl
  third := rfl
  num i hi := by
    obtain ⟨n, hn⟩ := num_eq_ok t hi
    refine ⟨n, hn, ?_⟩
    show n.toNat = t.counter i
    rw [ProcSyscallInfo.counter, hn]

theorem Shows.counter (h : Shows t p) {i : Int} (hi : InTable i) : t.counter i = p.count i := by
  obtain ⟨n, hn, hcount⟩ := h.num i hi
  rw [ProcSyscallInfo.counter, hn, ← hcount]

theorem Leading.ordered (h : Leading t) : t.podium.Ordered where
  second_le := h.second_le
  third_le := h.third_le
  others i hfirst hsecond hthird := by
    by_cases hi : InTable i
    · exact h.others i hi hfirst hsecond hthird
    · show t.counter i ≤ t.counter t.thirdSyscall
      rw [counter_of_not_inTable t hi]
      exact Nat.zero_le _

theorem Leading.distinct (h : Leading t) : t.podium.Distinct :=
  ⟨h.first_second, h.second_third, h.first_third⟩

/-- A table that shows such a podium is led by its places. -/
theorem Shows.leading (h : Shows t p) (ho : p.Ordered) (hd : p.Distinct) : Leading t where
  toInRange := h.inRange
  first_second := by
    rw [h.first, h.second]
    exact hd.first_second
  second_third := by
    rw [h.second, h.third]
    exact hd.second_third
  first_third := by
    rw [h.first, h.third]
    exact hd.first_third
  second_le := by
    rw [h.counter h.inRange.second, h.counter h.inRange.first, h.second, h.first]
    exact ho.second_le
  third_le := by
    rw [h.counter h.inRange.third, h.counter h.inRange.second, h.third, h.second]
    exact ho.third_le
  others i hi hfirst hsecond hthird := by
    rw [h.first] at hfirst
    rw [h.second] at hsecond
    rw [h.third] at hthird
    rw [h.counter hi, h.counter h.inRange.third, h.third]
    exact ho.others i hfirst hsecond hthird

/-- A batch leaves three leaders, and adds to each counter how often its number occurred. -/
theorem leading_updateSyscalls (t : ProcSyscallInfo) (e : SyscallSeq) (ht : Leading t)
    (he : e.InRange) (hno : ∀ i, InTable i → t.counter i + e.recorded.count i < 2 ^ 32) :
    ∃ t', updateSyscalls t e = .ok t' ∧ Leading t' ∧
      ∀ i, InTable i → t'.counter i = t.counter i + e.recorded.count i := by
  have hall : ∀ i, t.podium.count i + e.recorded.count i < 2 ^ 32 := by
    intro i
    by_cases hi : InTable i
    · exact hno i hi
    · -- what is recorded is in the table
      have hcount : e.recorded.count i = 0 :=
        List.count_eq_zero.mpr fun hmem => hi (inTable_of_recorded he hmem)
      show t.counter i + _ < _
      rw [counter_of_not_inTable t hi, hcount]
      decide
  have hmeets : Meets (fun _ => False)
      (fun t' => Shows t' (e.recorded.foldl Podium.update t.podium)) (updateSyscalls t e) :=
    (shows_podium ht.toInRange).updateSyscalls he hall
  cases hres : updateSyscalls t e with
  | error f =>
    rw [hres] at hmeets
    exact hmeets.elim
  | ok t' =>
    rw [hres] at hmeets
    have hshows : Shows t' (e.recorded.foldl Podium.update t.podium) := hmeets
    refine ⟨t', rfl, hshows.leading (ht.ordered.foldl _) (ht.distinct.foldl _), ?_⟩
    intro i hi
    rw [hshows.counter hi, Podium.foldl_count]
    rfl

/-- The first three numbers lead the table of zeros. -/
def firstThree : ProcSyscallInfo :=
  { ProcSyscallInfo.zero with secondSyscall := 1, thirdSyscall := 2 }

theorem counter_firstThree (i : Int) : firstThree.counter i = 0 := by
  by_cases hi : InTable i
  · have hnum : firstThree.num i = .ok 0 := by
      rw [ProcSyscallInfo.num, dif_pos hi]
      exact congrArg Except.ok (Vector.getElem_replicate hi.toNat_lt)
    rw [ProcSyscallInfo.counter, hnum]
    rfl
  · exact counter_of_not_inTable _ hi

theorem leading_updateSyscalls_firstThree :
    ∃ t', updateSyscalls firstThree (batchOf [5, 7, 5]) = .ok t' ∧ Leading t' ∧
      ∀ i, InTable i →
        t'.counter i = firstThree.counter i + (batchOf [5, 7, 5]).recorded.count i := by
  apply leading_updateSyscalls
  · refine ⟨⟨by decide, by decide, by decide⟩, by decide, by decide, by decide, ?_, ?_, ?_⟩
    all_goals simp [counter_firstThree]
  · exact ⟨by decide, by decide⟩
  · intro i _
    rw [counter_firstThree, Nat.zero_add]
    exact Nat.lt_of_le_of_lt List.count_le_length (by decide)

end AnyTable

end CpuSubsystem.SyscallImage
