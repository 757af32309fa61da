import CpuSubsystem.Lib.Calls
import CpuSubsystem.ProcImage.KeytimeTool.Refinement

/-!
# Every exec with its own entry

A task enters no exec before the last one has returned.  As long as the map has room and no record is
lost, the lines with a time are those of the execs that succeed.
-/

namespace CpuSubsystem.KeytimeTool

/-- The execs of the target, with the strings that are readable at the entry, and with the time and
the result at the return. -/
def execs (ro : Rodata) : Act → Option (Probe Exec (UInt64 × Int))
  | .sysEnterExecve cur now _ _ filename args user =>
    if cur.pid = ro.targetPid then
      some (.enter ⟨cur, now, shown user filename args, hasMore user filename args⟩)
    else none
  | .sysExitExecve cur now _ _ ret =>
    if cur.pid = ro.targetPid then some (.exit (now, ret)) else none
  | _ => none

/-- The map has room, and the record is sent. -/
def Act.succeeds : Act → Bool
  | .sysEnterExecve _ _ room sent .. | .sysExitExecve _ _ room sent _
  | .sysEnterExitGroup _ _ room sent _ | .sysEnterExit _ _ room sent _ => room && sent

/-- A line with a time. -/
def isTimed : Option Line → Bool
  | some (.timed ..) => true
  | _ => false

/-- The lines of the execs that succeed. -/
def successes (quote : Bool) (cs : List (Exec × (UInt64 × Int))) : List (Option Line) :=
  (cs.filter fun c => 0 ≤ c.2.2).map fun c => some (c.1.returned quote c.2.1 c.2.2)

variable {ro : Rodata} {quote : Bool} {pre tr : List Act} {a : Act}

theorem successes_append (cs cs' : List (Exec × (UInt64 × Int))) :
    successes quote (cs ++ cs') = successes quote cs ++ successes quote cs' := by
  simp only [successes, List.filter_append, List.map_append]

/-- The tracker has open what is pending. -/
structure Follows (ro : Rodata) (quote : Bool) (tr : List Act) : Prop where
  pending : (tracker ro quote).exec tr = (calls (execs ro) tr).pending
  timed : ((tracker ro quote).emitted tr).filter isTimed =
    successes quote (calls (execs ro) tr).completed

theorem Follows.step (h : Follows ro quote pre) {c : Calls Exec (UInt64 × Int)}
    (hc : calls (execs ro) (pre ++ [a]) = c)
    (hstate : (track ro quote (calls (execs ro) pre).pending a).1 = c.pending)
    {cs : List (Exec × (UInt64 × Int))} (hcs : c.completed = (calls (execs ro) pre).completed ++ cs)
    (hlines : ((track ro quote (calls (execs ro) pre).pending a).2.map some).filter isTimed =
      successes quote cs) : Follows ro quote (pre ++ [a]) := by
  constructor
  · rw [Machine.exec_snoc, hc, h.pending]
    exact hstate
  · rw [Machine.emitted_snoc, List.filter_append, h.timed, hc, hcs, successes_append, ← hlines,
      Machine.emits, h.pending]
    rfl

/-- An event that is no exec of the target. -/
theorem Follows.skip (h : Follows ro quote pre) (he : execs ro a = none)
    (hsame : ∀ o, (track ro quote o a).1 = o)
    (huntimed : ∀ o, ((track ro quote o a).2.map some).filter isTimed = []) :
    Follows ro quote (pre ++ [a]) :=
  h.step (calls_snoc_skip he) (hsame _) (List.append_nil _).symm (huntimed _)

theorem exits_skips (o : Option Exec) (cur : Task) (now : UInt64) (room sent : Bool)
    (arg : UInt64) : (exits ro quote o cur now room sent arg).1 = o ∧
      ((exits ro quote o cur now room sent arg).2.map some).filter isTimed = [] := by
  unfold exits
  split
  · cases sent <;> exact ⟨rfl, rfl⟩
  · exact ⟨rfl, rfl⟩

section Target

variable {cur : Task} {now filename args : UInt64} {room sent : Bool} {ret : Int}
  {user : KeytimeImage.UserMemory} {o : Option Exec} {x : Exec}

theorem enters_other (h : cur.pid ≠ ro.targetPid) :
    enters ro quote o cur now room sent filename args user = (o, []) :=
  if_neg fun hall => h hall.2.1

theorem enters_idle (hon : ro.enableExecve = true) (h : cur.pid = ro.targetPid) :
    enters ro quote none cur now true true filename args user =
      (some ⟨cur, now, shown user filename args, hasMore user filename args⟩,
        [Exec.entered quote ⟨cur, now, shown user filename args, hasMore user filename args⟩]) :=
  if_pos ⟨hon, h, rfl, rfl⟩

theorem returns_other (h : cur.pid ≠ ro.targetPid) :
    returns ro quote o cur now room sent ret = (o, []) :=
  if_neg fun hall => h hall.2

theorem returns_failed (hon : ro.enableExecve = true) (h : cur.pid = ro.targetPid)
    (hret : ret < 0) : returns ro quote o cur now room sent ret = (none, []) :=
  (if_pos (And.intro hon h)).trans (if_pos hret)

theorem returns_open (hon : ro.enableExecve = true) (h : cur.pid = ro.targetPid)
    (hret : ¬ ret < 0) :
    returns ro quote (some x) cur now true true ret = (none, [x.returned quote now ret]) :=
  (if_pos (And.intro hon h)).trans (if_neg hret)

theorem returns_idle (hon : ro.enableExecve = true) (h : cur.pid = ro.targetPid)
    (hret : ¬ ret < 0) :
    returns ro quote none cur now true true ret = (none, [missed cur now ret]) :=
  (if_pos (And.intro hon h)).trans (if_neg hret)

theorem successes_failed (hret : ret < 0) : successes quote [(x, (now, ret))] = [] := by
  simp [successes, hret]

theorem successes_single (hret : ¬ ret < 0) :
    successes quote [(x, (now, ret))] = [some (x.returned quote now ret)] := by
  simp [successes, Int.not_lt.mp hret]

theorem Follows.enter (h : Follows ro quote pre) (hon : ro.enableExecve = true)
    (halt : Alternating (execs ro)
      (pre ++ [.sysEnterExecve cur now true true filename args user])) :
    Follows ro quote (pre ++ [.sysEnterExecve cur now true true filename args user]) := by
  by_cases htarget : cur.pid = ro.targetPid
  · have he : execs ro (.sysEnterExecve cur now true true filename args user) =
        some (.enter ⟨cur, now, shown user filename args, hasMore user filename args⟩) :=
      if_pos htarget
    have htrack : track ro quote (calls (execs ro) pre).pending
        (.sysEnterExecve cur now true true filename args user) = _ :=
      (congrArg (fun o => enters ro quote o cur now true true filename args user)
        (halt.idle he)).trans (enters_idle hon htarget)
    refine h.step (calls_snoc he) ?_ (List.append_nil _).symm ?_
    · rw [htrack]
      rfl
    · rw [htrack]
      rfl
  · refine h.skip (if_neg htarget) (fun o => ?_) fun o => ?_
    · exact congrArg Prod.fst (enters_other htarget)
    · exact congrArg (fun r => (r.2.map some).filter isTimed) (enters_other htarget)

theorem Follows.return (h : Follows ro quote pre) (hon : ro.enableExecve = true) :
    Follows ro quote (pre ++ [.sysExitExecve cur now true true ret]) := by
  by_cases htarget : cur.pid = ro.targetPid
  · have he : execs ro (.sysExitExecve cur now true true ret) = some (.exit (now, ret)) :=
      if_pos htarget
    cases hpending : (calls (execs ro) pre).pending with
    | none =>
      have hcalls : calls (execs ro) (pre ++ [.sysExitExecve cur now true true ret]) =
          calls (execs ro) pre := by
        rw [calls_snoc he, Calls.step, hpending]
      by_cases hret : ret < 0
      · have htrack : returns ro quote none cur now true true ret = (none, []) :=
          returns_failed hon htarget hret
        refine h.step hcalls ?_ (List.append_nil _).symm ?_
        · rw [hpending]
          exact congrArg Prod.fst htrack
        · rw [hpending]
          exact congrArg (fun r => (r.2.map some).filter isTimed) htrack
      · have htrack : returns ro quote none cur now true true ret =
            (none, [missed cur now ret]) := returns_idle hon htarget hret
        refine h.step hcalls ?_ (List.append_nil _).symm ?_
        · rw [hpending]
          exact congrArg Prod.fst htrack
        · rw [hpending]
          exact congrArg (fun r => (r.2.map some).filter isTimed) htrack
    | some x =>
      have hcalls : calls (execs ro) (pre ++ [.sysExitExecve cur now true true ret]) =
          ⟨none, (calls (execs ro) pre).completed ++ [(x, (now, ret))]⟩ := by
        rw [calls_snoc he, Calls.step, hpending]
      by_cases hret : ret < 0
      · have htrack : returns ro quote (some x) cur now true true ret =
            (none, []) := returns_failed hon htarget hret
        refine h.step hcalls ?_ rfl ?_
        · rw [hpending]
          exact congrArg Prod.fst htrack
        · rw [hpending, successes_failed hret]
          exact congrArg (fun r => (r.2.map some).filter isTimed) htrack
      · have htrack : returns ro quote (some x) cur now true true ret =
            (none, [x.returned quote now ret]) := returns_open hon htarget hret
        refine h.step hcalls ?_ rfl ?_
        · rw [hpending]
          exact congrArg Prod.fst htrack
        · rw [hpending, successes_single hret]
          exact congrArg (fun r => (r.2.map some).filter isTimed) htrack
  · refine h.skip (if_neg htarget) (fun o => ?_) fun o => ?_
    · exact congrArg Prod.fst (returns_other htarget)
    · exact congrArg (fun r => (r.2.map some).filter isTimed) (returns_other htarget)

theorem Follows.snoc (h : Follows ro quote pre) (hon : ro.enableExecve = true)
    (halt : Alternating (execs ro) (pre ++ [a])) (ha : a.succeeds = true) :
    Follows ro quote (pre ++ [a]) := by
  cases a with
  | sysEnterExecve cur now room sent filename args user =>
    obtain ⟨rfl, rfl⟩ := Bool.and_eq_true_iff.mp ha
    exact h.enter hon halt
  | sysExitExecve cur now room sent ret =>
    obtain ⟨rfl, rfl⟩ := Bool.and_eq_true_iff.mp ha
    exact h.return hon
  | sysEnterExitGroup cur now room sent arg =>
    exact h.skip rfl (fun o => (exits_skips o cur now room sent arg).1)
      fun o => (exits_skips o cur now room sent arg).2
  | sysEnterExit cur now room sent arg =>
    exact h.skip rfl (fun o => (exits_skips o cur now room sent arg).1)
      fun o => (exits_skips o cur now room sent arg).2

end Target

theorem follows (hon : ro.enableExecve = true) (halt : Alternating (execs ro) tr)
    (h : ∀ a ∈ tr, a.succeeds = true) : Follows ro quote tr := by
  induction tr using List.reverseRecOn with
  | nil => exact ⟨rfl, rfl⟩
  | append_singleton pre a ih =>
    have hpre := ih halt.of_snoc fun b hb => h b (List.mem_append_left _ hb)
    exact hpre.snoc hon halt (h a (List.mem_append_right _ List.mem_cons_self))

/-- The lines with a time are those of the execs that succeed, in order, each with the caller, the
time and the strings of its own entry. -/
theorem execs_printed (ro : Rodata) (quote : Bool) (tr : List Act)
    (hon : ro.enableExecve = true) (halt : Alternating (execs ro) tr)
    (hsane : ∀ a ∈ tr, a.Sane) (h : ∀ a ∈ tr, a.succeeds = true) :
    (((machine ro).emitted tr).map (handleEvent (envOf quote))).filter isTimed =
      successes quote (calls (execs ro) tr).completed := by
  rw [((machine_simulates ro quote).run hsane).2]
  exact (follows hon halt h).timed

/-- An exec that fails, and one that succeeds. -/
def retried : List Act :=
  [.sysEnterExecve lsTask 1000 true true 100 1000 lsMemory,
    .sysExitExecve lsTask 2000 true true (-2),
    .sysEnterExecve lsTask 3000 true true 100 1000 lsMemory,
    .sysExitExecve lsTask 6000 true true 0]

theorem execs_printed_retried :
    (((machine ⟨7, true, false⟩).emitted retried).map (handleEvent (envOf false))).filter isTimed =
      [some (.timed 6000 .execveExit Comm.none 7 1 ((6000 - 3000 : UInt64).toNat * 1 / 1000) 0
        (.chars [108, 115, 32, 45, 108, 32]))] := by
  refine (execs_printed ⟨7, true, false⟩ false retried rfl (by decide) (fun a ha => ?_)
    fun a ha => ?_).trans rfl
  · simp only [retried, List.mem_cons, List.not_mem_nil, or_false] at ha
    rcases ha with rfl | rfl | rfl | rfl
    · exact ls_sane (by decide)
    · exact ⟨show (2000 : UInt64) ≠ 0 by decide, fun _ _ _ _ _ _ _ h => nomatch h⟩
    · exact ls_sane (by decide)
    · exact ⟨show (6000 : UInt64) ≠ 0 by decide, fun _ _ _ _ _ _ _ h => nomatch h⟩
  · simp only [retried, List.mem_cons, List.not_mem_nil, or_false] at ha
    rcases ha with rfl | rfl | rfl | rfl <;> rfl

end CpuSubsystem.KeytimeTool
