import CpuSubsystem.Lib.Outcome
import CpuSubsystem.ProcImage.SyscallImage.Model
import Mathlib.Data.UInt

/-!
# Syscall image, user side (`update_syscalls`, `print_syscall`)

Each process has a table of counters, one for each syscall number, and the three numbers that
occurred most.  An access outside the table and a division by zero are faults.
-/

namespace CpuSubsystem.SyscallImage

/-- `NR_syscalls`. -/
abbrev nrSyscalls : Nat := 500

inductive Fault where
  | outOfRange (index : Int)
  | divByZero
deriving DecidableEq, Repr

/-- `struct proc_syscall_info`. -/
structure ProcSyscallInfo where
  firstSyscall : Int
  secondSyscall : Int
  thirdSyscall : Int
  syscalls : Vector UInt32 nrSyscalls
deriving DecidableEq

def ProcSyscallInfo.zero : ProcSyscallInfo where
  firstSyscall := 0
  secondSyscall := 0
  thirdSyscall := 0
  syscalls := Vector.replicate nrSyscalls 0

def InTable (i : Int) : Prop := 0 ≤ i ∧ i < nrSyscalls

instance (i : Int) : Decidable (InTable i) := inferInstanceAs (Decidable (_ ∧ _))

theorem InTable.toNat_lt {i : Int} (h : InTable i) : i.toNat < nrSyscalls := by
  have hlo := h.1
  have hhi := h.2
  omega

/-- `syscalls[i]`. -/
def ProcSyscallInfo.num (t : ProcSyscallInfo) (i : Int) : Except Fault UInt32 :=
  if h : InTable i then .ok (t.syscalls.get ⟨i.toNat, h.toNat_lt⟩) else .error (.outOfRange i)

/-- `syscalls[i]++`. -/
def ProcSyscallInfo.incr (t : ProcSyscallInfo) (i : Int) : Except Fault ProcSyscallInfo :=
  if h : InTable i then
    .ok { t with
      syscalls := t.syscalls.set i.toNat (t.syscalls.get ⟨i.toNat, h.toNat_lt⟩ + 1) h.toNat_lt }
  else .error (.outOfRange i)

def ProcSyscallInfo.sortSecond (t : ProcSyscallInfo) : Except Fault ProcSyscallInfo := do
  let third ← t.num t.thirdSyscall
  let second ← t.num t.secondSyscall
  if third > second then
    return { t with secondSyscall := t.thirdSyscall, thirdSyscall := t.secondSyscall }
  else
    return t

def ProcSyscallInfo.sortFirst (t : ProcSyscallInfo) : Except Fault ProcSyscallInfo := do
  let second ← t.num t.secondSyscall
  let first ← t.num t.firstSyscall
  if second > first then
    return { t with firstSyscall := t.secondSyscall, secondSyscall := t.firstSyscall }
  else
    return t

/-- The branch for a number that is not among the first three. -/
def ProcSyscallInfo.rank (t : ProcSyscallInfo) (id : Int) : Except Fault ProcSyscallInfo := do
  let n ← t.num id
  let third ← t.num t.thirdSyscall
  if n > third then
    let second ← t.num t.secondSyscall
    if n > second then
      let first ← t.num t.firstSyscall
      if n > first then
        return { t with
          thirdSyscall := t.secondSyscall
          secondSyscall := t.firstSyscall
          firstSyscall := id }
      else
        return { t with thirdSyscall := t.secondSyscall, secondSyscall := id }
    else
      return { t with thirdSyscall := id }
  else
    return t

/-- One iteration of the loop of `update_syscalls`. -/
def ProcSyscallInfo.update (t : ProcSyscallInfo) (id : Int) : Except Fault ProcSyscallInfo := do
  let t ← t.incr id
  if id = t.firstSyscall ∨ id = t.secondSyscall ∨ id = t.thirdSyscall then
    -- bubble sort of the first three
    let t ← t.sortSecond
    let t ← t.sortFirst
    t.sortSecond
  else
    t.rank id

/-- `e->record_syscall[i]`. -/
def SyscallSeq.recordAt (e : SyscallSeq) (i : Nat) : Except Fault Int :=
  if h : i < maxSyscallCount then .ok e.recordSyscall[i] else .error (.outOfRange i)

def updateSyscalls (t : ProcSyscallInfo) (e : SyscallSeq) : Except Fault ProcSyscallInfo :=
  (List.range e.count).foldlM (fun t i => do t.update (← e.recordAt i)) t

/-- The totals over all processes, and the hash map of the tables. -/
structure Env where
  sumDelay : UInt64
  sumCount : UInt64
  maxDelay : UInt64
  minDelay : UInt64
  map : BpfMap Int ProcSyscallInfo

def Env.initial : Env where
  sumDelay := 0
  sumCount := 0
  maxDelay := 0
  minDelay := 0
  map := BpfMap.empty

def Env.add (env : Env) (e : SyscallSeq) : Env :=
  { env with
    sumDelay := env.sumDelay + e.sumDelay
    maxDelay := if e.maxDelay > env.maxDelay then e.maxDelay else env.maxDelay
    minDelay := if env.minDelay == 0 || e.minDelay < env.minDelay then e.minDelay else env.minDelay
    sumCount := env.sumCount + UInt64.ofNat e.count }

def divide (a b : UInt64) : Except Fault UInt64 :=
  if b = 0 then .error .divByZero else .ok (a / b)

/-- A line of the table.  The thread group is shown when one is targeted. -/
structure Row where
  tgid : Option Int
  pid : Int
  first : Int × UInt32
  second : Int × UInt32
  third : Int × UInt32
  procAvgDelay : UInt64
  sysAvgDelay : UInt64
  procMaxDelay : UInt64
  sysMaxDelay : UInt64
  procMinDelay : UInt64
  sysMinDelay : UInt64
  syscalls : List Int
deriving DecidableEq

/-- Whether the record is printed under the control value `c`. -/
def printed (c : ScCtrl) (e : SyscallSeq) : Bool :=
  (c.targetPid == -1 && c.targetTgid == -1) || e.pid == c.targetPid || e.tgid == c.targetTgid

/-- `print_syscall`, less the header and the time of day. -/
def printSyscall (c : ScCtrl) (env : Env) (e : SyscallSeq) : Except Fault (Env × Option Row) := do
  if c.scFunc then
    let env := env.add e
    let avgDelay ← divide env.sumDelay env.sumCount
    if printed c e then
      let info ← updateSyscalls ((env.map.lookup e.pid).getD ProcSyscallInfo.zero) e
      let first ← info.num info.firstSyscall
      let second ← info.num info.secondSyscall
      let third ← info.num info.thirdSyscall
      let procAvg ← divide e.procSd (UInt64.ofNat e.procCount)
      let ids ← (List.range e.count).mapM e.recordAt
      return ({ env with map := env.map.store e.pid info }, some {
        tgid := if c.targetTgid != -1 then some e.tgid else none
        pid := e.pid
        first := (info.firstSyscall, first)
        second := (info.secondSyscall, second)
        third := (info.thirdSyscall, third)
        procAvgDelay := procAvg
        sysAvgDelay := avgDelay
        procMaxDelay := e.maxDelay
        sysMaxDelay := env.maxDelay
        procMinDelay := e.minDelay
        sysMinDelay := env.minDelay
        syscalls := ids })
    else
      return (env, none)
  else
    return (env, none)

section Range

/-- The three numbers that a table keeps are numbers of the table. -/
structure ProcSyscallInfo.InRange (t : ProcSyscallInfo) : Prop where
  first : InTable t.firstSyscall
  second : InTable t.secondSyscall
  third : InTable t.thirdSyscall

theorem ProcSyscallInfo.zero_inRange : ProcSyscallInfo.zero.InRange :=
  ⟨by decide, by decide, by decide⟩

/-- All that the reader takes out of `record_syscall` is in the array, and in the table. -/
structure SyscallSeq.InRange (e : SyscallSeq) : Prop where
  count : e.count ≤ maxSyscallCount
  inTable : ∀ (i : Nat) (hi : i < maxSyscallCount), i < e.count → InTable e.recordSyscall[i]

variable {exc : Fault → Prop} {t : ProcSyscallInfo}

theorem meets_num (t : ProcSyscallInfo) {i : Int} (h : InTable i) :
    Meets exc (fun _ => True) (t.num i) := by
  rw [ProcSyscallInfo.num, dif_pos h]
  trivial

theorem meets_incr (ht : t.InRange) {i : Int} (h : InTable i) :
    Meets exc ProcSyscallInfo.InRange (t.incr i) := by
  rw [ProcSyscallInfo.incr, dif_pos h]
  exact ⟨ht.first, ht.second, ht.third⟩

theorem meets_sortSecond (ht : t.InRange) : Meets exc ProcSyscallInfo.InRange t.sortSecond := by
  apply (meets_num t ht.third).bind
  intro third _
  apply (meets_num t ht.second).bind
  intro second _
  split
  · exact ⟨ht.first, ht.third, ht.second⟩
  · exact ht

theorem meets_sortFirst (ht : t.InRange) : Meets exc ProcSyscallInfo.InRange t.sortFirst := by
  apply (meets_num t ht.second).bind
  intro second _
  apply (meets_num t ht.first).bind
  intro first _
  split
  · exact ⟨ht.second, ht.first, ht.third⟩
  · exact ht

theorem meets_rank (ht : t.InRange) {id : Int} (h : InTable id) :
    Meets exc ProcSyscallInfo.InRange (t.rank id) := by
  apply (meets_num t h).bind
  intro n _
  apply (meets_num t ht.third).bind
  intro third _
  split
  · apply (meets_num t ht.second).bind
    intro second _
    split
    · apply (meets_num t ht.first).bind
      intro first _
      split
      · exact ⟨h, ht.first, ht.second⟩
      · exact ⟨ht.first, h, ht.second⟩
    · exact ⟨ht.first, ht.second, h⟩
  · exact ht

theorem meets_update (ht : t.InRange) {id : Int} (h : InTable id) :
    Meets exc ProcSyscallInfo.InRange (t.update id) := by
  apply (meets_incr ht h).bind
  intro t' ht'
  split
  · apply (meets_sortSecond ht').bind
    intro t₁ h₁
    apply (meets_sortFirst h₁).bind
    intro t₂ h₂
    exact meets_sortSecond h₂
  · exact meets_rank ht' h

theorem meets_recordAt {e : SyscallSeq} (he : e.InRange) {i : Nat} (hi : i < e.count) :
    Meets exc InTable (e.recordAt i) := by
  have hlt : i < maxSyscallCount := Nat.lt_of_lt_of_le hi he.count
  rw [SyscallSeq.recordAt, dif_pos hlt]
  exact he.inTable i hlt hi

/-- The loop of `update_syscalls` does not leave the table. -/
theorem meets_updateSyscalls (ht : t.InRange) {e : SyscallSeq} (he : e.InRange) :
    Meets exc ProcSyscallInfo.InRange (updateSyscalls t e) := by
  apply meets_foldlM _ ht
  intro t' ht' i hi
  apply (meets_recordAt he (List.mem_range.mp hi)).bind
  intro id hid
  exact meets_update ht' hid

def Env.InRange (env : Env) : Prop := ∀ p t, env.map.lookup p = some t → t.InRange

theorem Env.initial_inRange : Env.initial.InRange := by
  intro p t h
  cases h

theorem meets_divide (a b : UInt64) : Meets (· = .divByZero) (fun _ => True) (divide a b) := by
  unfold divide
  split
  · rfl
  · trivial

/-- A call of `print_syscall` keeps the tables, and at most it divides by zero. -/
theorem meets_printSyscall (c : ScCtrl) {env : Env} (henv : env.InRange) {e : SyscallSeq}
    (he : e.InRange) :
    Meets (· = .divByZero) (fun r => r.1.InRange) (printSyscall c env e) := by
  unfold printSyscall
  split
  · apply (meets_divide _ _).bind
    intro avgDelay _
    split
    · have hinfo : ((((env.add e).map.lookup e.pid).getD ProcSyscallInfo.zero)).InRange := by
        cases hl : (env.add e).map.lookup e.pid with
        | none => exact ProcSyscallInfo.zero_inRange
        | some t => exact henv e.pid t hl
      apply (meets_updateSyscalls hinfo he).bind
      intro info hi
      apply (meets_num info hi.first).bind
      intro first _
      apply (meets_num info hi.second).bind
      intro second _
      apply (meets_num info hi.third).bind
      intro third _
      apply (meets_divide _ _).bind
      intro procAvg _
      have hids : Meets (· = .divByZero) (fun _ => True)
          ((List.range e.count).mapM e.recordAt) := by
        apply meets_mapM
        intro i hmem
        exact (meets_recordAt he (List.mem_range.mp hmem)).mono (fun _ _ => trivial)
      apply hids.bind
      intro ids _
      exact BpfMap.forall_store henv e.pid hi
    · exact henv
  · exact henv

/-- The reader polls the records in turn; the control value can change between two of them. -/
def printAll (env : Env) (rs : List (ScCtrl × SyscallSeq)) : Except Fault Env :=
  rs.foldlM (fun env r => do return (← printSyscall r.1 env r.2).1) env

theorem meets_printAll {rs : List (ScCtrl × SyscallSeq)} (h : ∀ r ∈ rs, r.2.InRange) :
    Meets (· = .divByZero) Env.InRange (printAll Env.initial rs) := by
  apply meets_foldlM _ Env.initial_inRange
  intro env henv r hr
  apply (meets_printSyscall r.1 henv (h r hr)).bind
  intro x hx
  exact hx

end Range

section Totals

variable {rs : List (ScCtrl × SyscallSeq)} {env env' : Env} {c : ScCtrl} {e : SyscallSeq}

/-- The records that come while the image is on. -/
def consumed (rs : List (ScCtrl × SyscallSeq)) : List SyscallSeq :=
  (rs.filter fun r => r.1.scFunc).map Prod.snd

/-- The totals over all processes after these records. -/
def Env.addAll (env : Env) (es : List SyscallSeq) : Env := es.foldl Env.add env

theorem addAll_sumDelay (env : Env) (es : List SyscallSeq) :
    (env.addAll es).sumDelay = env.sumDelay + (es.map SyscallSeq.sumDelay).sum := by
  induction es generalizing env with
  | nil => exact (UInt64.add_zero _).symm
  | cons e es ih =>
    rw [List.map_cons, List.sum_cons, ← UInt64.add_assoc]
    exact ih (env.add e)

theorem addAll_snoc (env : Env) (es : List SyscallSeq) (e : SyscallSeq) :
    env.addAll (es ++ [e]) = (env.addAll es).add e := by
  rw [Env.addAll, List.foldl_append]
  rfl

/-- The totals do not depend on the tables. -/
theorem addAll_with (env : Env) (m : BpfMap Int ProcSyscallInfo) (es : List SyscallSeq) :
    ({ env with map := m }).addAll es = { env.addAll es with map := m } := by
  induction es generalizing env with
  | nil => rfl
  | cons e es ih => exact ih (env.add e)

theorem consumed_cons (r : ScCtrl × SyscallSeq) (rs : List (ScCtrl × SyscallSeq)) :
    consumed (r :: rs) = (if r.1.scFunc then [r.2] else []) ++ consumed rs := by
  cases h : r.1.scFunc <;> simp [consumed, h]

theorem meets_printSyscall_totals (c : ScCtrl) (env : Env) (e : SyscallSeq) :
    Meets (fun _ => True)
      (fun r => ∃ m, r.1 = { env.addAll (if c.scFunc then [e] else []) with map := m })
      (printSyscall c env e) := by
  unfold printSyscall
  have hany : ∀ {α : Type} (x : Except Fault α), Meets (fun _ => True) (fun _ => True) x := by
    intro α x
    cases x <;> trivial
  split
  · apply (hany _).bind
    intro avgDelay _
    split
    · apply (hany _).bind
      intro info _
      apply (hany _).bind
      intro first _
      apply (hany _).bind
      intro second _
      apply (hany _).bind
      intro third _
      apply (hany _).bind
      intro procAvg _
      apply (hany _).bind
      intro ids _
      exact ⟨_, rfl⟩
    · exact ⟨env.map, rfl⟩
  · exact ⟨env.map, rfl⟩

/-- The totals after a run of the reader. -/
theorem printAll_totals (h : printAll env rs = .ok env') :
    ∃ m, env' = { env.addAll (consumed rs) with map := m } := by
  induction rs generalizing env with
  | nil =>
    cases h
    exact ⟨env'.map, rfl⟩
  | cons r rs ih =>
    have hone := meets_printSyscall_totals r.1 env r.2
    rw [printAll, List.foldlM_cons] at h
    cases hp : printSyscall r.1 env r.2 with
    | error f =>
      rw [hp] at h
      cases h
    | ok x =>
      rw [hp] at h hone
      obtain ⟨m, hx⟩ := hone
      obtain ⟨m', rfl⟩ := ih (show printAll x.1 rs = .ok env' from h)
      refine ⟨m', ?_⟩
      rw [consumed_cons, hx, addAll_with]
      simp only [Env.addAll, List.foldl_append]

end Totals

section Faults

variable {t : ProcSyscallInfo} {e : SyscallSeq}

/-- The computation does not divide by zero. -/
def NoDivision {α : Type} (x : Except Fault α) : Prop := Meets (· ≠ .divByZero) (fun _ => True) x

theorem NoDivision.bind {α β : Type} {x : Except Fault β} {f : β → Except Fault α}
    (h : NoDivision x) (hf : ∀ b, NoDivision (f b)) : NoDivision (x >>= f) :=
  Meets.bind h fun b _ => hf b

theorem noDivision_pure {α : Type} (a : α) : NoDivision (pure a : Except Fault α) := trivial

theorem noDivision_num (t : ProcSyscallInfo) (i : Int) : NoDivision (t.num i) := by
  unfold ProcSyscallInfo.num
  split
  · trivial
  · exact Fault.noConfusion

theorem noDivision_incr (t : ProcSyscallInfo) (i : Int) : NoDivision (t.incr i) := by
  unfold ProcSyscallInfo.incr
  split
  · trivial
  · exact Fault.noConfusion

theorem noDivision_recordAt (e : SyscallSeq) (i : Nat) : NoDivision (e.recordAt i) := by
  unfold SyscallSeq.recordAt
  split
  · trivial
  · exact Fault.noConfusion

theorem noDivision_sortSecond (t : ProcSyscallInfo) : NoDivision t.sortSecond := by
  apply (noDivision_num t _).bind
  intro third
  apply (noDivision_num t _).bind
  intro second
  split <;> exact noDivision_pure _

theorem noDivision_sortFirst (t : ProcSyscallInfo) : NoDivision t.sortFirst := by
  apply (noDivision_num t _).bind
  intro second
  apply (noDivision_num t _).bind
  intro first
  split <;> exact noDivision_pure _

theorem noDivision_rank (t : ProcSyscallInfo) (id : Int) : NoDivision (t.rank id) := by
  apply (noDivision_num t _).bind
  intro n
  apply (noDivision_num t _).bind
  intro third
  split
  · apply (noDivision_num t _).bind
    intro second
    split
    · apply (noDivision_num t _).bind
      intro first
      split <;> exact noDivision_pure _
    · exact noDivision_pure _
  · exact noDivision_pure _

theorem noDivision_update (t : ProcSyscallInfo) (id : Int) : NoDivision (t.update id) := by
  apply (noDivision_incr t id).bind
  intro t'
  split
  · apply (noDivision_sortSecond t').bind
    intro t₁
    apply (noDivision_sortFirst t₁).bind
    intro t₂
    exact noDivision_sortSecond t₂
  · exact noDivision_rank t' id

theorem noDivision_updateSyscalls (t : ProcSyscallInfo) (e : SyscallSeq) :
    NoDivision (updateSyscalls t e) := by
  apply meets_foldlM _ trivial
  intro t' _ i _
  apply (noDivision_recordAt e i).bind
  intro id
  exact noDivision_update t' id

/-- The figures of a line, when there is something to divide by. -/
theorem meets_printSyscall_row {c : ScCtrl} {env : Env} (hsum : (env.add e).sumCount ≠ 0)
    (hproc : printed c e = true → UInt64.ofNat e.procCount ≠ 0) :
    Meets (· ≠ .divByZero) (fun r => ∀ row, r.2 = some row → printed c e = true ∧
        row.procAvgDelay = e.procSd / UInt64.ofNat e.procCount ∧
        row.procMaxDelay = e.maxDelay ∧ row.procMinDelay = e.minDelay ∧
        row.sysAvgDelay = (env.add e).sumDelay / (env.add e).sumCount ∧
        row.sysMaxDelay = (env.add e).maxDelay ∧ row.sysMinDelay = (env.add e).minDelay)
      (printSyscall c env e) := by
  unfold printSyscall
  split
  · have havg : divide (env.add e).sumDelay (env.add e).sumCount =
        .ok ((env.add e).sumDelay / (env.add e).sumCount) := if_neg hsum
    simp only [havg]
    show Meets _ _ (if printed c e = true then _ else _)
    split
    · rename_i hprinted
      have hdiv : divide e.procSd (UInt64.ofNat e.procCount) =
          .ok (e.procSd / UInt64.ofNat e.procCount) := if_neg (hproc hprinted)
      apply Meets.bind (noDivision_updateSyscalls _ e)
      intro info _
      apply Meets.bind (noDivision_num info _)
      intro first _
      apply Meets.bind (noDivision_num info _)
      intro second _
      apply Meets.bind (noDivision_num info _)
      intro third _
      simp only [hdiv]
      have hids : NoDivision ((List.range e.count).mapM e.recordAt) :=
        meets_mapM fun i _ => noDivision_recordAt e i
      apply Meets.bind hids
      intro ids _ row hrow
      cases hrow
      exact ⟨hprinted, rfl, rfl, rfl, rfl, rfl, rfl⟩
    · intro row hrow
      cases hrow
  · intro row hrow
    cases hrow

end Faults

end CpuSubsystem.SyscallImage
