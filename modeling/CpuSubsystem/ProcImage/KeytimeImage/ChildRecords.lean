import CpuSubsystem.ProcImage.KeytimeImage.Probes

/-!
# Exit records and the creations they belong to

The probe of a creation runs in the parent (for vfork in the child) and leaves an entry under the
pid of the child; the probe of an exit runs in the child and takes it away.  The entry says nothing
about which incarnation of the pid it is for, nor whether the creation was reported.
-/

namespace CpuSubsystem.KeytimeImage

/-- A probe fires in the incarnation `self` of a task, or the task is killed, which no probe sees.
`made` is the incarnation of the child that a returning fork or clone3 made. -/
inductive Occurrence where
  | probe (self made : Nat) (e : Event)
  | kill (self : Nat)

namespace Occurrence

def event : Occurrence → Option Event
  | probe _ _ e => some e
  | kill _ => none

def self : Occurrence → Nat
  | probe self _ _ => self
  | kill self => self

/-- The incarnation that a creation is about: `vfork_exit` takes the current task for the child. -/
def created : Occurrence → Option Nat
  | probe _ made (.forkExit ..) => some made
  | probe self _ (.vforkExit ..) => some self
  | probe _ made (.sysExitClone3 ..) => some made
  | _ => none

/-- The pid of a task that exits. -/
def exits : Occurrence → Option Int
  | probe _ _ (.sysEnterExitGroup cur ..) => some cur.pid
  | probe _ _ (.sysEnterExit cur ..) => some cur.pid
  | _ => none

end Occurrence

variable (ro : Rodata) (c : KtCtrl)

def observed : Machine State Occurrence Record := (machine ro c).watching Occurrence.event

/-! ## What the records should say -/

/-- The creation of the incarnation `i` is reported, by the record that `r` is the exit record
of. -/
def ReportsCreation (pre : List Occurrence) (o : Occurrence) (i : Nat) (r : KeytimeEvent) : Prop :=
  o.created = some i ∧ ∃ r', .keytime r' ∈ (observed ro c).emits pre o ∧
    r'.type + 1 = r.type ∧ r'.pid = r.pid ∧ r'.info₀ = r.info₀

/-- The exit of a child with pid `p` is reported. -/
def ReportsExit (pre : List Occurrence) (o : Occurrence) (p : Int) : Prop :=
  o.exits = some p ∧ ∃ r ∈ (observed ro c).emits pre o, r.isChildExit = true

/-- Between the two no exit of a child with pid `p` is reported. -/
def NoExitBetween (pre₁ pre₂ : List Occurrence) (p : Int) : Prop :=
  Throughout (fun pre o => pre₁ <+: pre → ¬ReportsExit ro c pre o p) pre₂

/-- An exit record comes after the create record of the same incarnation of the child for the same
parent, and is the first exit record of that pid since. -/
def ExitMatched (pre : List Occurrence) (o : Occurrence) : Prop :=
  ∀ r, .keytime r ∈ (observed ro c).emits pre o → (Record.keytime r).isChildExit = true →
    ∃ p, o.exits = some p ∧ r.info₀ = UInt64.ofInt p ∧
      ∃ pre' o', pre' ++ [o'] <+: pre ∧ ReportsCreation ro c pre' o' o.self r ∧
        NoExitBetween ro c (pre' ++ [o']) pre p

/-- Between two exit records of one pid there is a create record for the later one. -/
def AtMostOneExit (tr : List Occurrence) : Prop :=
  ∀ pre₁ o₁ pre₂ o₂ p r₂, pre₁ ++ [o₁] <+: pre₂ → pre₂ ++ [o₂] <+: tr →
    ReportsExit ro c pre₁ o₁ p → o₂.exits = some p →
    .keytime r₂ ∈ (observed ro c).emits pre₂ o₂ → (Record.keytime r₂).isChildExit = true →
    ∃ pre o, pre₁ ++ [o₁] <+: pre ∧ pre ++ [o] <+: pre₂ ∧ ReportsCreation ro c pre o o₂.self r₂

/-! ## When they do -/

/-- Who the entry of a pid is for, and whether the creation was reported. -/
structure Birth where
  child : Option Nat
  recorded : Bool
deriving DecidableEq

/-- A creation whose entry is accepted. -/
def bear (g : Int → Option Birth) (s : State) (o : Occurrence) : Int → Option Birth :=
  match o.event.bind (creation ro s) with
  | some k =>
    if s.child.accepts k.room k.childPid then
      Function.update g k.childPid (some ⟨o.created, k.slot.isSome⟩)
    else g
  | none => g

/-- For every pid the latest creation that made an entry. -/
def births (tr : List Occurrence) : Int → Option Birth :=
  (observed ro c).ghost (fun _ => none) (bear ro) tr

/-- The task that is about to be reported as an exiting child. -/
def reported (s : State) (o : Occurrence) : Option Int :=
  match o.event.bind (exiting ro s) with
  | some (cur, slot) =>
    if slot.isSome && (s.child.lookup cur.pid).isSome then some cur.pid else none
  | none => none

/-- A task is only reported as an exiting child when its entry was made for its own incarnation,
and the creation was reported. -/
def BornRecorded (pre : List Occurrence) (o : Occurrence) : Prop :=
  ∀ p ∈ reported ro ((observed ro c).exec pre) o, births ro c pre p = some ⟨some o.self, true⟩

variable {ro c} {tr pre pre₁ pre₂ : List Occurrence} {o : Occurrence} {s : State} {p : Int}

theorem NoExitBetween.snoc (h : NoExitBetween ro c pre₁ pre p) (ho : ¬ReportsExit ro c pre o p) :
    NoExitBetween ro c pre₁ (pre ++ [o]) p :=
  Throughout.snoc h fun _ => ho

theorem noExitBetween_self (pre : List Occurrence) (p : Int) : NoExitBetween ro c pre pre p := by
  intro pre' o' hp hpre
  have hlt := hp.length_le
  have hle := hpre.length_le
  rw [List.length_append, List.length_singleton] at hlt
  omega

theorem births_snoc : births ro c (pre ++ [o]) =
    bear ro (births ro c pre) ((observed ro c).exec pre) o :=
  Machine.ghost_snoc _ _ _ _ _

theorem exits_of_creation {e : Event} {k : Creation} (h : creation ro s e = some k)
    (self made : Nat) : (Occurrence.probe self made e).exits = none := by
  cases e <;> first | rfl | cases h

theorem exits_of_created {i : Nat} (h : o.created = some i) : o.exits = none := by
  cases o with
  | kill self => rfl
  | probe self made e => cases e <;> first | rfl | cases h

theorem exits_of_exiting {e : Event} {cur : Task} {slot : Option KeytimeEvent}
    (h : exiting ro s e = some (cur, slot)) (self made : Nat) :
    (Occurrence.probe self made e).exits = some cur.pid := by
  cases e with
  | sysEnterExitGroup cur' code slot' slot'' | sysEnterExit cur' code slot' slot'' =>
    obtain ⟨-, hcall⟩ := Option.ite_none_right_eq_some.mp h
    cases hcall
    rfl
  | _ => cases h

/-- The entry of `p` goes back to a creation that was reported, if the latest one was. -/
def Backed (ro : Rodata) (c : KtCtrl) (tr : List Occurrence) (s : State) (p : Int) : Prop :=
  ∀ info, s.child.lookup p = some info → ∀ i, births ro c tr p = some ⟨some i, true⟩ →
    ∃ pre o, pre ++ [o] <+: tr ∧ o.created = some i ∧
      (∃ r, .keytime r ∈ (observed ro c).emits pre o ∧ r.type = info.type ∧ r.pid = info.ppid ∧
        r.info₀ = UInt64.ofInt p) ∧
      NoExitBetween ro c (pre ++ [o]) tr p

/-- An occurrence that neither makes an entry for `p` nor reports the exit of `p`. -/
theorem Backed.skip {s' : State} (h : Backed ro c pre s p)
    (hchild : ∀ info, s'.child.lookup p = some info →
      s.child.lookup p = some info ∧ ¬ReportsExit ro c pre o p)
    (hbirth : births ro c (pre ++ [o]) p = births ro c pre p) :
    Backed ro c (pre ++ [o]) s' p := by
  intro info hinfo i hi
  obtain ⟨hbefore, hexit⟩ := hchild info hinfo
  rw [hbirth] at hi
  obtain ⟨pre', o', hp, hcreated, hr, hno⟩ := h info hbefore i hi
  exact ⟨pre', o', hp.trans (List.prefix_append pre [o]), hcreated, hr, hno.snoc hexit⟩

section Probes

variable {self made : Nat} {e : Event}

theorem emits_probe : (observed ro c).emits pre (.probe self made e) =
    (step ro ((observed ro c).exec pre) e).2 := rfl

theorem births_probe (hk : creation ro ((observed ro c).exec pre) e = none) :
    births ro c (pre ++ [Occurrence.probe self made e]) = births ro c pre := by
  rw [births_snoc]
  simp only [bear, Occurrence.event, Option.bind_some, hk]

theorem births_creation {k : Creation}
    (hk : creation ro ((observed ro c).exec pre) e = some k) :
    births ro c (pre ++ [Occurrence.probe self made e]) =
      if ((observed ro c).exec pre).child.accepts k.room k.childPid then
        Function.update (births ro c pre) k.childPid
          (some ⟨(Occurrence.probe self made e).created, k.slot.isSome⟩)
      else births ro c pre := by
  rw [births_snoc]
  simp only [bear, Occurrence.event, Option.bind_some, hk]

/-- The entry of `k.childPid` is made, or nothing happens. -/
theorem Backed.creates (h : Backed ro c pre ((observed ro c).exec pre) p) {k : Creation}
    (hk : creation ro ((observed ro c).exec pre) e = some k) :
    Backed ro c (pre ++ [Occurrence.probe self made e])
      (step ro ((observed ro c).exec pre) e).1 p := by
  obtain ⟨hstep, -⟩ := step_creation hk
  have hexit : ¬ReportsExit ro c pre (.probe self made e) p := by
    rintro ⟨hexits, -⟩
    rw [exits_of_creation hk] at hexits
    cases hexits
  have hbirths : births ro c (pre ++ [Occurrence.probe self made e]) = _ := births_creation hk
  have hemits : (observed ro c).emits pre (.probe self made e) =
      (step ro ((observed ro c).exec pre) e).2 := emits_probe
  rw [hstep] at hemits
  rw [hstep]
  cases hacc : ((observed ro c).exec pre).child.accepts k.room k.childPid with
  | false =>
    rw [hacc, if_neg Bool.false_ne_true] at hbirths
    rw [childCreate_refused hacc]
    exact h.skip (fun info hinfo => ⟨hinfo, hexit⟩) (by rw [hbirths])
  | true =>
    rw [hacc, if_pos rfl] at hbirths
    rw [childCreate_accepted hacc] at hemits ⊢
    by_cases hp : p = k.childPid
    · -- the entry is made here, so this is the creation
      subst hp
      intro info hinfo i hi
      rw [hbirths, Function.update_self] at hi
      simp only [Option.some.injEq, Birth.mk.injEq] at hi
      obtain ⟨mem, hmem⟩ := Option.isSome_iff_exists.mp hi.2
      cases (BpfMap.lookup_store_self _ _ _).symm.trans hinfo
      have hrecord : Record.keytime (mem.fill k.type k.ppid
          (shownTgid ((observed ro c).exec pre).ktCtrlMap k.ptgid)
          (UInt64.ofInt k.childPid)) ∈ (observed ro c).emits pre (.probe self made e) := by
        rw [hemits, hmem]
        exact List.mem_singleton_self _
      exact ⟨pre, _, List.prefix_rfl, hi.1,
        ⟨_, hrecord, rfl, rfl, fill_info mem _ _ _ _⟩, noExitBetween_self _ _⟩
    · apply h.skip
      · intro info hinfo
        exact ⟨(BpfMap.lookup_store_of_ne _ _ hp).symm.trans hinfo, hexit⟩
      · rw [hbirths, Function.update_of_ne hp]

/-- The entry of the exiting task is removed when its exit is reported. -/
theorem Backed.exits (h : Backed ro c pre ((observed ro c).exec pre) p) {cur : Task}
    {slot : Option KeytimeEvent} (hk : creation ro ((observed ro c).exec pre) e = none)
    (hx : exiting ro ((observed ro c).exec pre) e = some (cur, slot)) :
    Backed ro c (pre ++ [Occurrence.probe self made e])
      (step ro ((observed ro c).exec pre) e).1 p := by
  obtain ⟨hstate, hrecords⟩ := step_exiting hx
  apply h.skip _ (by rw [births_probe hk])
  intro info hinfo
  rw [hstate] at hinfo
  obtain ⟨hbefore, hquiet⟩ := childExit_lookup hinfo
  refine ⟨hbefore, ?_⟩
  rintro ⟨hexits, r, hr, hexit⟩
  rw [exits_of_exiting hx] at hexits
  rw [emits_probe] at hr
  -- a reported exit would have removed the entry
  have hmem := hrecords r hr hexit
  rw [hquiet (Option.some.inj hexits).symm] at hmem
  cases hmem

end Probes

theorem backed (ro : Rodata) (c : KtCtrl) (tr : List Occurrence) (p : Int) :
    Backed ro c tr ((observed ro c).exec tr) p := by
  induction tr using List.reverseRecOn with
  | nil =>
    intro info hinfo
    cases (BpfMap.lookup_empty p).symm.trans hinfo
  | append_singleton pre o ih =>
    rw [Machine.exec_snoc]
    cases o with
    | kill self =>
      apply ih.skip
      · intro info hinfo
        refine ⟨hinfo, ?_⟩
        rintro ⟨hexits, -⟩
        cases hexits
      · rw [births_snoc]
        rfl
    | probe self made e =>
      show Backed ro c _ (step ro ((observed ro c).exec pre) e).1 p
      cases hk : creation ro ((observed ro c).exec pre) e with
      | some k => exact ih.creates hk
      | none =>
        cases hx : exiting ro ((observed ro c).exec pre) e with
        | some x => exact ih.exits hk hx
        | none =>
          obtain ⟨hchild, hquiet⟩ := step_neither hk hx
          apply ih.skip _ (by rw [births_probe hk])
          intro info hinfo
          rw [hchild] at hinfo
          refine ⟨hinfo, ?_⟩
          rintro ⟨-, r, hr, hexit⟩
          rw [emits_probe] at hr
          rw [hquiet r hr] at hexit
          cases hexit

theorem exit_matched (h : BornRecorded ro c pre o) : ExitMatched ro c pre o := by
  intro r hr hexit
  cases o with
  | kill self => cases hr
  | probe self made e =>
    have hemits : (observed ro c).emits pre (.probe self made e) =
        (step ro ((observed ro c).exec pre) e).2 := rfl
    rw [hemits] at hr
    have hbacked := fun p => backed ro c pre p
    generalize hexec : (observed ro c).exec pre = s at hr hbacked
    rw [BornRecorded, hexec] at h
    -- only an exit probe reports the exit of a child
    cases hk : creation ro s e with
    | some k =>
      obtain ⟨hstep, htype⟩ := step_creation hk
      rw [hstep] at hr
      rw [childCreate_not_isChildExit htype _ hr] at hexit
      cases hexit
    | none =>
      cases hx : exiting ro s e with
      | none =>
        rw [(step_neither hk hx).2 _ hr] at hexit
        cases hexit
      | some x =>
        obtain ⟨cur, slot⟩ := x
        obtain ⟨info, mem, hinfo, hslot, hrec⟩ :=
          childExit_mem ((step_exiting hx).2 _ hr hexit)
        cases hrec
        have hrep : reported ro s (.probe self made e) = some cur.pid := by
          simp only [reported, Occurrence.event, Option.bind_some, hx, hslot, hinfo,
            Option.isSome_some, Bool.and_self, if_true]
        obtain ⟨pre', o', hp, hcreated, ⟨r', hr', htype, hpid, hchild⟩, hno⟩ :=
          hbacked cur.pid info hinfo self (h cur.pid hrep)
        refine ⟨cur.pid, exits_of_exiting hx self made, fill_info _ _ _ _ _, pre', o', hp,
          ⟨hcreated, r', hr', ?_, hpid, ?_⟩, hno⟩
        · rw [htype]
          rfl
        · rw [hchild, fill_info]

/-- In every run of these probes and of kills, with every pattern of failed reservations and of full
maps, every change of the control and every reuse of pids. -/
theorem exits_matched (ro : Rodata) (c : KtCtrl) (tr : List Occurrence)
    (h : Throughout (BornRecorded ro c) tr) :
    Throughout (ExitMatched ro c) tr ∧ AtMostOneExit ro c tr := by
  have hmatched : Throughout (ExitMatched ro c) tr := fun pre o hp => exit_matched (h pre o hp)
  refine ⟨hmatched, ?_⟩
  intro pre₁ o₁ pre₂ o₂ p r₂ h₁₂ h₂ hexit₁ hexits₂ hr₂ hchild₂
  obtain ⟨p', hp', -, pre, o, hpre, hcreation, hno⟩ := hmatched pre₂ o₂ h₂ r₂ hr₂ hchild₂
  obtain rfl : p' = p := Option.some.inj (hp'.symm.trans hexits₂)
  refine ⟨pre, o, ?_, hpre, hcreation⟩
  have hne : pre₁ ++ [o₁] ≠ pre ++ [o] := by
    intro heq
    obtain ⟨-, ho⟩ := List.append_inj' heq rfl
    cases ho
    cases (exits_of_created hcreation.1).symm.trans hexit₁.1
  -- the create record comes after the first exit record, which is not between it and the second
  rcases List.prefix_or_prefix_of_prefix h₁₂ hpre with hbefore | hafter
  · exact (List.prefix_concat_iff.mp hbefore).resolve_left hne
  · exact absurd hexit₁
      (hno pre₁ o₁ h₁₂ ((List.prefix_concat_iff.mp hafter).resolve_left hne.symm))

section Runs

instance (pre : List Occurrence) (o : Occurrence) : Decidable (BornRecorded ro c pre o) :=
  Option.decidableForallMem _

/-- Thread 5 forks process 6 three times; the first child exits, the second one is killed. -/
def sixReused : List Occurrence :=
  [.probe 0 1 (.forkExit ⟨5, 5⟩ 6 true (some .zero)),
    .probe 1 0 (.sysEnterExitGroup ⟨6, 6⟩ 0 (some .zero) (some .zero)),
    .probe 0 2 (.forkExit ⟨5, 5⟩ 6 true (some .zero)), .kill 2,
    .probe 0 3 (.forkExit ⟨5, 5⟩ 6 true (some .zero)),
    .probe 3 0 (.sysEnterExitGroup ⟨6, 6⟩ 0 (some .zero) (some .zero))]

theorem exits_matched_sixReused :
    Throughout (ExitMatched ⟨1, 20⟩ .all) sixReused ∧ AtMostOneExit ⟨1, 20⟩ .all sixReused :=
  exits_matched ⟨1, 20⟩ .all sixReused (by decide +kernel)

def unreportedFork : Occurrence := .probe 0 1 (.forkExit ⟨5, 5⟩ 6 true none)

def childExits : Occurrence :=
  .probe 1 0 (.sysEnterExitGroup ⟨6, 6⟩ 0 (some .zero) (some .zero))

/-- The record of the fork cannot be reserved, and the exit of the child is reported. -/
theorem exit_without_creation :
    ¬Throughout (ExitMatched ⟨1, 20⟩ .all) [unreportedFork, childExits] := by
  intro h
  have hexit : (observed ⟨1, 20⟩ .all).emits [unreportedFork] childExits =
      [.keytime (KeytimeEvent.zero.fill 3 6 (-1) 0),
        .keytime (KeytimeEvent.zero.fill 5 5 (-1) 6)] := rfl
  have hfork : (observed ⟨1, 20⟩ .all).emits [] unreportedFork = [] := rfl
  obtain ⟨p, -, -, pre, o, hp, ⟨-, r, hr, -⟩, -⟩ :=
    h [unreportedFork] childExits List.prefix_rfl (KeytimeEvent.zero.fill 5 5 (-1) 6)
      (by rw [hexit]; simp) rfl
  rcases List.prefix_concat_iff.mp (show pre ++ [o] <+: [] ++ [unreportedFork] from hp)
    with heq | hnil
  · obtain ⟨rfl, ho⟩ := List.append_inj' heq rfl
    cases ho
    rw [hfork] at hr
    cases hr
  · exact absurd (List.prefix_nil.mp hnil) (by simp)

end Runs

end CpuSubsystem.KeytimeImage
