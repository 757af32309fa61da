import CpuSubsystem.ProcImage.KeytimeImage.Children

/-!
# Completeness of the child records

Where a child stands after a run: not recorded yet, recorded with its entry, or closed with both of
its records.  Timely calls of `child_create` are all that it takes.
-/

namespace CpuSubsystem.KeytimeImage

namespace Scene

variable {x : Scene} {s : State} {self made i j : Nat} {e : Event} {k : Creation}
  {tr pre : List Life} {l : Life}

/-- What a call of `child_create` says about its child. -/
theorem announced_of_some (h : x.announced s l = some i) :
    ∃ self made e k, l = .occ (.probe self made e) ∧ creation x.ro s e = some k ∧
      l.child = some i := by
  unfold announced at h
  split at h
  · rename_i hk
    obtain ⟨k, hk⟩ := Option.isSome_iff_exists.mp hk
    cases l with
    | born j byVfork => cases h
    | occ o =>
      cases o with
      | kill self => cases h
      | probe self made e => exact ⟨self, made, e, k, rfl, hk, h⟩
  · cases h

theorem announced_of_creation (hk : creation x.ro s e = some k) :
    x.announced s (.occ (.probe self made e)) = (Life.occ (.probe self made e)).child := by
  simp only [announced, Life.event, Occurrence.event, Option.bind_some, hk, Option.isSome_some,
    if_true]

/-- A step that neither calls `child_create` for the child nor is its exit. -/
theorem tell_other (ha : x.announced s l ≠ some i) (hx : l.exiter ≠ some i) :
    x.tell i s l = [] := by
  unfold tell
  rw [if_neg hx]
  split
  · rename_i hchild
    cases l with
    | born j byVfork => rfl
    | occ o =>
      cases o with
      | kill self => rfl
      | probe self made e =>
        cases hk : creation x.ro s e with
        | some k => exact absurd ((announced_of_creation hk).trans hchild) ha
        | none =>
          show (step x.ro s e).2 = []
          rw [creation_idle hk hchild]
  · rfl

/-- Such a step leaves the entry of the child alone, while nobody else has its pid. -/
theorem entry_other (h : x.Lifelike (pre ++ [l])) (htimely : x.Timely pre l)
    (ha : x.announced (x.lived.exec pre) l ≠ some i) (hx : l.exiter ≠ some i)
    (hi : i ∈ (x.world pre).living ∨ latest (x.lives.bornAs (x.taskOf i).pid) pre = some i) :
    (x.lived.exec (pre ++ [l])).child.lookup (x.taskOf i).pid =
      (x.lived.exec pre).child.lookup (x.taskOf i).pid := by
  have hctrl := h.of_snoc.ctrl
  have hserved := h.served l (Lifelike.last_mem pre l)
  have hpossible : x.Possible pre l := h.possible.last
  rw [Machine.exec_snoc]
  have hpid := h.positive i
  -- the pid of `i` belongs to nobody else who lives
  have hdiffers : ∀ j ∈ (x.world pre).living, j ≠ i → (x.taskOf i).pid ≠ (x.taskOf j).pid :=
    fun j hj hne heq => hne (h.of_snoc.holder hi hj heq.symm)
  unfold Timely at htimely
  generalize x.lived.exec pre = s at ha htimely hctrl ⊢
  cases l with
  | born j byVfork => rfl
  | occ o =>
    cases o with
    | kill self => rfl
    | probe self made e =>
      have hfits : x.Fits (x.world pre) (.occ (.probe self made e)) := hpossible.2
      show (step x.ro s e).1.child.lookup (x.taskOf i).pid = s.child.lookup (x.taskOf i).pid
      cases hk : creation x.ro s e with
      | some k =>
        obtain ⟨hroom, -, hsome, hnone⟩ :=
          creation_served self made hk (hserved e rfl)
        rw [(step_creation hk).1, hroom, childCreate_accepted (BpfMap.accepts_true _ _)]
        apply BpfMap.lookup_store_of_ne
        cases hchild : (Life.occ (.probe self made e)).child with
        | none =>
          have hneg := hnone hchild
          omega
        | some j =>
          have hann := (announced_of_creation hk).trans hchild
          have hkey : k.childPid = (x.taskOf j).pid :=
            Option.some.inj ((hsome j hchild).symm.trans (hfits.2.2 j hchild))
          rw [hkey]
          exact hdiffers j (htimely j hann).1 (fun hij => ha (hij ▸ hann))
      | none =>
        cases hexit : (Life.occ (.probe self made e)).exiter with
        | some j =>
          obtain ⟨made', e', cur, mem, hl, hcur, hstate, -⟩ :=
            exit_served (x := x) (hctrl ▸ h.active) hexit hserved
          cases hl
          have hown : cur = x.taskOf self := hfits.2.1 cur hcur
          have hne : (x.taskOf i).pid ≠ cur.pid := by
            rw [hown]
            exact hdiffers self hfits.1 (fun hij => hx (hij ▸ hexit))
          rw [show (step x.ro s e).1 = (childExit s cur (some mem)).1 from hstate, childExit]
          split
          · rfl
          · exact BpfMap.lookup_delete_of_ne _ hne
        | none =>
          cases hexiting : exiting x.ro s e with
          | none => rw [(step_neither hk hexiting).1]
          | some p =>
            cases e <;> first | cases hexiting | cases hexit

theorem mem_called_snoc : i ∈ x.called (pre ++ [l]) ↔
    i ∈ x.called pre ∨ x.announced (x.lived.exec pre) l = some i := by
  rw [called_snoc, List.mem_append, Option.mem_toList]

theorem exited_snoc : Exited i (pre ++ [l]) ↔ Exited i pre ∨ l.exiter = some i := by
  constructor
  · rintro ⟨l', hl, hexit⟩
    rcases List.mem_append.mp hl with hl | hl
    · exact Or.inl ⟨l', hl, hexit⟩
    · rw [List.mem_singleton.mp hl] at hexit
      exact Or.inr hexit
  · rintro (⟨l', hl, hexit⟩ | hexit)
    · exact ⟨l', List.mem_append_left _ hl, hexit⟩
    · exact ⟨l, Lifelike.last_mem pre l, hexit⟩

theorem called_known (h : x.Lifelike tr) (htimely : Throughout x.Timely tr)
    (hi : i ∈ x.called tr) : i ∈ (x.world tr).known := by
  induction tr using List.reverseRecOn with
  | nil => cases hi
  | append_singleton pre l ih =>
    rw [world_snoc]
    apply Lifetimes.known_after
    rcases mem_called_snoc.mp hi with hi | hi
    · exact ih h.of_snoc htimely.of_snoc hi
    · exact h.of_snoc.soundWorld.known i (htimely.last i hi).1

/-- Somebody who exited is known and does not live. -/
theorem exited_gone (h : x.Lifelike tr) (hi : Exited i tr) :
    i ∈ (x.world tr).known ∧ i ∉ (x.world tr).living := by
  induction tr using List.reverseRecOn with
  | nil =>
    obtain ⟨l, hl, -⟩ := hi
    cases hl
  | append_singleton pre l ih =>
    have horderly : x.lives.Orderly (x.world pre) l := h.orderly.last
    rw [world_snoc]
    rcases exited_snoc.mp hi with hi | hi
    -- who is known is not born again
    · obtain ⟨hknown, hgone⟩ := ih h.of_snoc hi
      refine ⟨Lifetimes.known_after hknown, fun hlive => ?_⟩
      rcases Lifetimes.living_after hlive with hborn | ⟨hlive, -⟩
      · exact (horderly.1 i hborn).1 hknown
      · exact hgone hlive
    · have hdeath : x.lives.death l = some i := by
        cases l with
        | born j byVfork => cases hi
        | occ o =>
          cases o with
          | kill self => cases hi
          | probe self made e => exact hi
      have hbirth : x.lives.birth l = none := (child_exiter hi).2
      refine ⟨Lifetimes.known_after (h.of_snoc.soundWorld.known i (horderly.2 i hdeath)), ?_⟩
      intro hlive
      rcases Lifetimes.living_after hlive with hborn | ⟨-, hdied⟩
      · rw [hbirth] at hborn
        cases hborn
      · exact hdied hbirth hdeath

/-- Nothing was told about somebody who is not born yet. -/
theorem story_unborn (h : x.Lifelike tr) (htimely : Throughout x.Timely tr)
    (hi : i ∉ (x.world tr).known) : x.story i tr = [] := by
  induction tr using List.reverseRecOn with
  | nil => rfl
  | append_singleton pre l ih =>
    have hcalled : x.announced (x.lived.exec pre) l ≠ some i :=
      fun ha => hi (called_known h htimely (mem_called_snoc.mpr (Or.inr ha)))
    have hexit : l.exiter ≠ some i :=
      fun hexit => hi (exited_gone h (exited_snoc.mpr (Or.inr hexit))).1
    rw [world_snoc] at hi
    rw [story_snoc, tell_other hcalled hexit, List.append_nil]
    exact ih h.of_snoc htimely.of_snoc fun hknown => hi (Lifetimes.known_after hknown)

/-- What the create record of a child says, with the entry that it leaves. -/
def Recorded (x : Scene) (i : Nat) (tr : List Life) : Prop :=
  ∃ (info : ChildInfo) (mem : KeytimeEvent),
    (info.type = 4 ∨ info.type = 6 ∨ info.type = 8) ∧
    (x.lived.exec tr).child.lookup (x.taskOf i).pid = some info ∧
    x.story i tr = [.keytime (mem.fill info.type info.ppid info.ptgid
      (UInt64.ofInt (x.taskOf i).pid))]

/-- The two records of a child that has exited, with no entry left. -/
def Closed (x : Scene) (i : Nat) (tr : List Life) : Prop :=
  (∃ (info : ChildInfo) (mem mem' : KeytimeEvent),
    (info.type = 4 ∨ info.type = 6 ∨ info.type = 8) ∧
    x.story i tr = [.keytime (mem.fill info.type info.ppid info.ptgid
        (UInt64.ofInt (x.taskOf i).pid)),
      .keytime (mem'.fill (info.type + 1) info.ppid info.ptgid
        (UInt64.ofInt (x.taskOf i).pid))]) ∧
  (latest (x.lives.bornAs (x.taskOf i).pid) tr = some i →
    (x.lived.exec tr).child.lookup (x.taskOf i).pid = none)

/-- Where a child stands. -/
structure Stands (x : Scene) (i : Nat) (tr : List Life) : Prop where
  unrecorded : i ∈ (x.world tr).living → i ∉ x.called tr → x.story i tr = []
  recorded : i ∈ (x.world tr).living → i ∈ x.called tr → Recorded x i tr
  closed : Exited i tr → i ∈ x.called tr → Closed x i tr

theorem Stands.other (hs : Stands x i pre) (h : x.Lifelike (pre ++ [l]))
    (htimely : Throughout x.Timely (pre ++ [l]))
    (ha : x.announced (x.lived.exec pre) l ≠ some i) (hx : l.exiter ≠ some i) :
    Stands x i (pre ++ [l]) := by
  have horderly : x.lives.Orderly (x.world pre) l := h.orderly.last
  have hstory : x.story i (pre ++ [l]) = x.story i pre := by
    rw [story_snoc, tell_other ha hx, List.append_nil]
  have hcalled : i ∈ x.called (pre ++ [l]) → i ∈ x.called pre :=
    fun hi => (mem_called_snoc.mp hi).resolve_right ha
  have hentry := entry_other h htimely.last ha hx
  constructor
  · intro hlive hnot
    rw [hstory]
    rw [world_snoc] at hlive
    rcases Lifetimes.living_after hlive with hborn | ⟨hlive, -⟩
    · exact story_unborn h.of_snoc htimely.of_snoc (horderly.1 i hborn).1
    · exact hs.unrecorded hlive fun hi => hnot (mem_called_snoc.mpr (Or.inl hi))
  · intro hlive hi
    rw [world_snoc] at hlive
    have hknown := called_known h.of_snoc htimely.of_snoc (hcalled hi)
    rcases Lifetimes.living_after hlive with hborn | ⟨hlive, -⟩
    · exact absurd hknown (horderly.1 i hborn).1
    · obtain ⟨info, mem, htype, hlookup, htold⟩ := hs.recorded hlive (hcalled hi)
      exact ⟨info, mem, htype, (hentry (Or.inl hlive)).trans hlookup, hstory.trans htold⟩
  · intro hexited hi
    have hexited := (exited_snoc.mp hexited).resolve_right hx
    obtain ⟨⟨info, mem, mem', htype, htold⟩, hnone⟩ := hs.closed hexited (hcalled hi)
    refine ⟨⟨info, mem, mem', htype, hstory.trans htold⟩, fun hheir => ?_⟩
    have hbefore : latest (x.lives.bornAs (x.taskOf i).pid) pre = some i := by
      cases hborn : x.lives.bornAs (x.taskOf i).pid l with
      | none =>
        rw [latest_snoc_none pre hborn] at hheir
        exact hheir
      | some j =>
        -- only `i` itself could be born here, and it is known already
        rw [latest_snoc_some pre hborn] at hheir
        cases hheir
        have hbirth := (Lifetimes.bornAs_eq_some.mp hborn).1
        exact absurd (exited_gone h.of_snoc hexited).1 (horderly.1 i hbirth).1
    exact (hentry (Or.inr hbefore)).trans (hnone hbefore)

theorem Stands.announce (hs : Stands x i pre) (h : x.Lifelike (pre ++ [l]))
    (htimely : x.Timely pre l) (ha : x.announced (x.lived.exec pre) l = some i) :
    Stands x i (pre ++ [l]) := by
  obtain ⟨hlive, hnot⟩ := htimely i ha
  have hserved := h.served l (Lifelike.last_mem pre l)
  have hpossible : x.Possible pre l := h.possible.last
  obtain ⟨self, made, e, k, rfl, hk, hchild⟩ := announced_of_some ha
  obtain ⟨hroom, hslot, hsome, -⟩ :=
    creation_served self made hk (hserved e rfl)
  have hfits : x.Fits (x.world pre) (.occ (.probe self made e)) := hpossible.2
  have hkey : k.childPid = (x.taskOf i).pid :=
    Option.some.inj ((hsome i hchild).symm.trans (hfits.2.2 i hchild))
  obtain ⟨mem, hmem⟩ := Option.isSome_iff_exists.mp hslot
  obtain ⟨hstep, htype⟩ := step_creation hk
  rw [hroom, hmem, hkey, childCreate_accepted (BpfMap.accepts_true _ _)] at hstep
  -- the record and the entry are made by one call
  have hrecorded : Recorded x i (pre ++ [Life.occ (.probe self made e)]) := by
    refine ⟨⟨k.type, k.ppid, shownTgid (x.lived.exec pre).ktCtrlMap k.ptgid⟩, mem, htype, ?_, ?_⟩
    · rw [Machine.exec_snoc]
      show (step x.ro (x.lived.exec pre) e).1.child.lookup _ = _
      rw [hstep]
      exact BpfMap.lookup_store_self _ _ _
    · rw [story_snoc, hs.unrecorded hlive hnot, tell, if_pos hchild]
      show [] ++ (step x.ro (x.lived.exec pre) e).2 = _
      rw [hstep]
      rfl
  constructor
  · intro _ hi
    exact absurd (mem_called_snoc.mpr (Or.inr ha)) hi
  · intro _ _
    exact hrecorded
  · intro hexited _
    have hno : (Life.occ (.probe self made e)).exiter ≠ some i := by
      rw [(creation_only hk).1]
      exact Option.some_ne_none i ∘ Eq.symm
    exact absurd hlive (exited_gone h.of_snoc ((exited_snoc.mp hexited).resolve_right hno)).2

theorem Stands.exit (hs : Stands x i pre) (h : x.Lifelike (pre ++ [l]))
    (hx : l.exiter = some i) : Stands x i (pre ++ [l]) := by
  have hgone := (exited_gone h (exited_snoc.mpr (Or.inr hx))).2
  have hpossible : x.Possible pre l := h.possible.last
  have hchild := (child_exiter hx).1
  have hno : x.announced (x.lived.exec pre) l ≠ some i := by
    unfold announced
    rw [hchild, ite_self]
    exact Option.some_ne_none i ∘ Eq.symm
  have hctrl := h.of_snoc.ctrl
  have hserved := h.served l (Lifelike.last_mem pre l)
  refine ⟨fun hlive => absurd hlive hgone, fun hlive => absurd hlive hgone, fun _ hi => ?_⟩
  have hi := (mem_called_snoc.mp hi).resolve_right hno
  obtain ⟨made, e, cur, mem', hl, hcur, hstate, hout⟩ :=
    exit_served (x := x) (hctrl ▸ h.active) hx hserved
  rw [hl] at hpossible
  have hfits : x.Fits (x.world pre) (.occ (.probe i made e)) := hpossible.2
  -- the exiting task is the child itself, so it finds the entry that was made for it
  have hown : cur = x.taskOf i := hfits.2.1 cur hcur
  obtain ⟨info, mem, htype, hlookup, htold⟩ := hs.recorded hfits.1 hi
  have hexit : childExit (x.lived.exec pre) cur (some mem') =
      ({ x.lived.exec pre with
          child := (x.lived.exec pre).child.delete (x.taskOf i).pid },
        [.keytime (mem'.fill (info.type + 1) info.ppid info.ptgid
          (UInt64.ofInt (x.taskOf i).pid))]) := by
    simp only [childExit, hown, hlookup]
  rw [hexit] at hstate hout
  refine ⟨⟨info, mem, mem', htype, ?_⟩, fun _ => ?_⟩
  · have hkind : (Record.keytime (mem'.fill (info.type + 1) info.ppid info.ptgid
        (UInt64.ofInt (x.taskOf i).pid))).isChildExit = true := by
      rw [isChildExit_fill]
      rcases htype with ht | ht | ht <;> rw [ht] <;> decide
    rw [story_snoc, htold, tell, hchild, if_neg (Option.some_ne_none i ∘ Eq.symm), if_pos hx, hout,
      List.filter_cons_of_pos hkind]
    rfl
  · rw [Machine.exec_snoc, hstate]
    exact BpfMap.lookup_delete_self _ _

theorem stands (h : x.Lifelike tr) (htimely : Throughout x.Timely tr) (i : Nat) :
    Stands x i tr := by
  induction tr using List.reverseRecOn with
  | nil =>
    refine ⟨fun _ _ => rfl, fun _ hi => ?_, fun _ hi => ?_⟩
    · cases hi
    · cases hi
  | append_singleton pre l ih =>
    have hs := ih h.of_snoc htimely.of_snoc
    by_cases ha : x.announced (x.lived.exec pre) l = some i
    · exact hs.announce h htimely.last ha
    · by_cases hx : l.exiter = some i
      · exact hs.exit h hx
      · exact hs.other h htimely ha hx

/-! ### The flag of `pthread_create` -/

/-- Nobody calls `pthread_create` before its birth. -/
theorem turn_unborn (h : x.Lifelike tr) (hi : i ∉ (x.world tr).known) :
    latest (Life.turn i) tr = none := by
  induction tr using List.reverseRecOn with
  | nil => rfl
  | append_singleton pre l ih =>
    rw [world_snoc] at hi
    have hbefore : i ∉ (x.world pre).known := fun hknown => hi (Lifetimes.known_after hknown)
    have hpossible : x.Possible pre l := h.possible.last
    -- a task makes its calls itself, and only while it lives
    have hturn : Life.turn i l = none := by
      have hself : ∀ made e, l = .occ (.probe i made e) → False := by
        intro made e hl
        rw [hl] at hpossible
        have hfits : x.Fits (x.world pre) (.occ (.probe i made e)) := hpossible.2
        exact hbefore (h.of_snoc.soundWorld.known i hfits.1)
      cases l with
      | born j byVfork => rfl
      | occ o =>
        cases o with
        | kill self => rfl
        | probe self made e =>
          by_cases hj : self = i
          · exact (hself made e (by rw [hj])).elim
          · cases e <;> first | rfl | exact if_neg hj
    rw [latest_snoc_none pre hturn]
    exact ih h.of_snoc hbefore

/-- A selected task inside of `pthread_create` has its flag set. -/
theorem flag_set (h : x.Lifelike tr) (hlive : i ∈ (x.world tr).living)
    (hsel : selected x.ro x.c (x.taskOf i) = true)
    (hturn : latest (Life.turn i) tr = some true) :
    (x.lived.exec tr).pthreadCreateEnable.lookup (x.taskOf i).pid = some true := by
  induction tr using List.reverseRecOn with
  | nil => cases hturn
  | append_singleton pre l ih =>
    have hserved := h.served l (Lifelike.last_mem pre l)
    have hconst := h.constant l (Lifelike.last_mem pre l)
    have hpossible : x.Possible pre l := h.possible.last
    have hctrl := h.of_snoc.ctrl
    rw [world_snoc] at hlive
    have hbefore : i ∈ (x.world pre).living := by
      rcases Lifetimes.living_after hlive with hborn | ⟨hlive, -⟩
      · -- a task that was just born made no call
        have hquiet := turn_unborn h.of_snoc (hpossible.1.1 i hborn).1
        cases l with
        | born j byVfork =>
          rw [latest_snoc_none pre (show Life.turn i (.born j byVfork) = none from rfl),
            hquiet] at hturn
          cases hturn
        | occ o => cases hborn
      · exact hlive
    rw [Machine.exec_snoc]
    have ih := fun hinside => ih h.of_snoc hbefore hinside
    generalize x.lived.exec pre = s at ih hctrl ⊢
    cases l with
    | born j byVfork => exact ih (by rwa [latest_snoc_none pre rfl] at hturn)
    | occ o =>
      cases o with
      | kill self => exact ih (by rwa [latest_snoc_none pre rfl] at hturn)
      | probe self made e =>
        have hfits : x.Fits (x.world pre) (.occ (.probe self made e)) := hpossible.2
        show (step x.ro s e).1.pthreadCreateEnable.lookup _ = some true
        by_cases hi : self = i
        · subst hi
          cases e with
          | pthreadCreateEnter cur room =>
            have hroom : room = true := hserved _ rfl
            show (pthreadCreateEnter x.ro s cur room).pthreadCreateEnable.lookup _ = some true
            rw [pthreadCreateEnter, hctrl, h.active, Bool.true_and, hroom, hfits.2.1 cur rfl,
              if_pos hsel, BpfMap.update_true]
            exact BpfMap.lookup_store_self _ _ _
          | pthreadCreateExit cur =>
            rw [latest_snoc_some pre (if_pos rfl)] at hturn
            cases hturn
          | _ =>
            rw [flag_other (by rintro cur ⟨⟩)]
            exact ih (by rwa [latest_snoc_none pre rfl] at hturn)
        · -- another thread has another pid
          have hother : ∀ cur ∈ e.flagged, cur.pid ≠ (x.taskOf i).pid := by
            intro cur hcur heq
            rw [hfits.2.1 cur (Event.cur_of_flagged hcur)] at heq
            exact hi (h.of_snoc.soundWorld.distinct self hfits.1 i hbefore heq)
          have hnot : Life.turn i (.occ (.probe self made e)) = none := by
            cases e <;> first | rfl | exact if_neg hi
          rw [flag_other hother]
          exact ih (by rwa [latest_snoc_none pre hnot] at hturn)

/-- The selection in `vfork_exit` takes in every child of a selected parent. -/
theorem selectedVfork_of_selected {ro : Rodata} {c : KtCtrl} {cur parent : Task}
    (hcur : cur.tgid ≠ ro.ignoreTgid) (h : selected ro c parent = true) :
    selectedVfork ro c cur parent = true := by
  simp only [selected, Bool.and_eq_true, Bool.or_eq_true, beq_iff_eq, bne_iff_ne] at h
  simp only [selectedVfork, Bool.and_eq_true, Bool.or_eq_true, beq_iff_eq, bne_iff_ne]
  rcases h.2 with (hall | hgroup) | hpid
  · exact Or.inl ⟨Or.inr hcur, Or.inl ⟨hall.2, hall.1⟩⟩
  · exact Or.inr hgroup
  · exact Or.inl ⟨Or.inr hcur, Or.inr hpid⟩

/-- The tgid of a new process stays different from that of the tool. -/
theorem vforked_tgid (h : x.Lifelike tr) (hi : .born i true ∈ tr) :
    (x.taskOf i).tgid ≠ x.ro.ignoreTgid := by
  obtain ⟨pre, post, rfl⟩ := List.mem_iff_append.mp hi
  have hp : pre ++ [Life.born i true] <+: pre ++ .born i true :: post :=
    ⟨post, by rw [List.append_assoc, List.singleton_append]⟩
  have hfits : x.Fits (x.world pre) (.born i true) := (h.possible pre _ hp).2
  exact hfits rfl

/-- The probe of the creation gets to `child_create`. -/
theorem announced_of_creationProbe (h : x.Lifelike (pre ++ [l])) (hc : x.CreationProbe i pre l) :
    x.announced (x.lived.exec pre) l = some i := by
  have hctrl := h.of_snoc.ctrl
  have hpossible : x.Possible pre l := h.possible.last
  have hflag := fun i => flag_set (i := i) h.of_snoc
  generalize x.lived.exec pre = s at hctrl hflag ⊢
  cases l with
  | born j byVfork => cases hc
  | occ o =>
    cases o with
    | kill self => cases hc
    | probe self made e =>
      have hfits : x.Fits (x.world pre) (.occ (.probe self made e)) := hpossible.2
      cases e with
      | forkExit cur ret room slot =>
        obtain ⟨rfl, hret, hsel⟩ := hc
        have hne : (ret != 0) = true := bne_iff_ne.mpr (by omega)
        have hk : creation x.ro s (.forkExit cur ret room slot) =
            some ⟨4, ret, cur.pid, cur.tgid, room, slot⟩ := by
          rw [creation, hctrl, h.active, hsel, hne]
          rfl
        exact (announced_of_creation hk).trans (if_pos hret)
      | vforkExit cur parent room slot =>
        obtain ⟨rfl, hborn, hsel⟩ := hc
        -- after vfork the probe runs in the child, which is not the tool
        have hcur : cur.tgid ≠ x.ro.ignoreTgid := by
          rw [hfits.2.1 cur rfl]
          exact vforked_tgid h.of_snoc hborn
        have hk : creation x.ro s (.vforkExit cur parent room slot) =
            some ⟨6, cur.pid, parent.pid, parent.tgid, room, slot⟩ := by
          rw [creation, hctrl, h.active, selectedVfork_of_selected hcur hsel]
          rfl
        exact announced_of_creation hk
      | sysExitClone3 cur ret room slot =>
        obtain ⟨rfl, hret, hsel, hturn⟩ := hc
        -- inside of `pthread_create` the flag is set
        have hset : s.pthreadCreateEnable.lookup cur.pid = some true := by
          rw [hfits.2.1 cur rfl] at hsel ⊢
          exact hflag self hfits.1 hsel hturn
        have hk : creation x.ro s (.sysExitClone3 cur ret room slot) =
            some ⟨8, toInt ret, cur.pid, cur.tgid, room, slot⟩ := by
          rw [creation, hctrl, h.active, hsel, hset, decide_eq_true hret]
          rfl
        exact (announced_of_creation hk).trans (if_pos hret)
      | _ => cases hc

end Scene

/-- In every run of tasks that come and go, with any reuse of pids, for every child. -/
theorem children_complete (x : Scene) (tr : List Life) (h : x.Lifelike tr)
    (htimely : Throughout x.Timely tr) (i : Nat) : x.Complete i tr := by
  rintro - ⟨pre, l, hp, hcreation⟩ hexited
  have hann := Scene.announced_of_creationProbe (h.restrict hp) hcreation
  -- once made, the call stays on record
  have hcalled : ∀ tr', pre ++ [l] <+: tr' → i ∈ x.called tr' := by
    intro tr' hp'
    induction tr' using List.reverseRecOn with
    | nil => exact absurd (List.prefix_nil.mp hp') (by simp)
    | append_singleton tr' l' ih =>
      apply Scene.mem_called_snoc.mpr
      rcases List.prefix_concat_iff.mp hp' with heq | hp'
      · obtain ⟨rfl, hl⟩ := List.append_inj' heq rfl
        cases hl
        exact Or.inr hann
      · exact Or.inl (ih hp')
  obtain ⟨⟨info, mem, mem', htype, htold⟩, hnone⟩ :=
    (Scene.stands h htimely i).closed hexited (hcalled tr hp)
  refine ⟨⟨_, _, htold, htype, rfl, rfl, rfl, fill_info _ _ _ _ _, ?_⟩, hnone⟩
  rw [fill_info, fill_info]

section Runs

variable {x : Scene} {pre : List Life} {l : Life} {w : Population Nat}

instance : Decidable (x.Fits w l) :=
  match l with
  | .born .. => inferInstanceAs (Decidable (_ → _))
  | .occ (.kill _) => isTrue trivial
  | .occ (.probe ..) =>
    @instDecidableAnd _ _ inferInstance
      (@instDecidableAnd _ _ (Option.decidableForallMem _) (Option.decidableForallMem _))

instance : Decidable (x.Possible pre l) := inferInstanceAs (Decidable (_ ∧ _))

instance : Decidable (x.Timely pre l) := Option.decidableForallMem _

/-- The task 0 has pid 5, its children 1 and 2 have pid 6 one after the other. -/
def family : Scene where
  ro := ⟨1, 20⟩
  c := .all
  taskOf i := if i = 0 then ⟨5, 5⟩ else ⟨6, 6⟩
  start := ⟨[0], [0]⟩

def forks (child : Nat) : Life :=
  .occ (.probe 0 child (.forkExit ⟨5, 5⟩ 6 true (some .zero)))

def exits (child : Nat) : Life :=
  .occ (.probe child 0 (.sysEnterExitGroup ⟨6, 6⟩ 0 (some .zero) (some .zero)))

theorem family_lifelike {tr : List Life} (hconst : ∀ l ∈ tr, ∀ e ∈ l.event, e.control = none)
    (hserved : ∀ l ∈ tr, ∀ e ∈ l.event, e.served = true)
    (hpossible : Throughout family.Possible tr) : family.Lifelike tr where
  active := rfl
  positive i := by
    show 0 < (if i = 0 then (⟨5, 5⟩ : Task) else ⟨6, 6⟩).pid
    split <;> decide
  sound := ⟨fun i hi => hi, fun i hi j hj _ => by
    rw [List.mem_singleton.mp hi, List.mem_singleton.mp hj]⟩
  constant := hconst
  served := hserved
  possible := hpossible

def inOrder : List Life := [.born 1 false, forks 1, exits 1, .born 2 false, forks 2]

theorem inOrder_events (l : Life) (hl : l ∈ inOrder) (e : Event) (he : e ∈ l.event) :
    e.control = none ∧ e.served = true := by
  simp only [inOrder, List.mem_cons, List.not_mem_nil, or_false] at hl
  rcases hl with rfl | rfl | rfl | rfl | rfl <;> cases he <;> exact ⟨rfl, rfl⟩

theorem children_complete_inOrder : family.Complete 1 inOrder :=
  children_complete family inOrder
    (family_lifelike (fun l hl e he => (inOrder_events l hl e he).1)
      (fun l hl e he => (inOrder_events l hl e he).2) (by decide +kernel))
    (by decide +kernel) 1

/-- The child runs and exits before fork returns in its parent. -/
def childFirst : List Life := [.born 1 false, exits 1, forks 1]

theorem childFirst_events (l : Life) (hl : l ∈ childFirst) (e : Event) (he : e ∈ l.event) :
    e.control = none ∧ e.served = true := by
  simp only [childFirst, List.mem_cons, List.not_mem_nil, or_false] at hl
  rcases hl with rfl | rfl | rfl <;> cases he <;> exact ⟨rfl, rfl⟩

/-- There is no exit record, and the entry of the child stays. -/
theorem childFirst_incomplete :
    family.Lifelike childFirst ∧ ¬family.Complete 1 childFirst ∧
      (family.lived.exec childFirst).child.lookup 6 = some ⟨4, 5, -1⟩ := by
  refine ⟨family_lifelike (fun l hl e he => (childFirst_events l hl e he).1)
    (fun l hl e he => (childFirst_events l hl e he).2) (by decide +kernel), ?_, by decide +kernel⟩
  intro h
  have hcreated : ∃ pre l, pre ++ [l] <+: childFirst ∧ family.CreationProbe 1 pre l :=
    ⟨[.born 1 false, exits 1], forks 1, List.prefix_rfl, rfl, by decide, by decide⟩
  obtain ⟨⟨r, r', htold, -⟩, -⟩ := h ⟨false, List.mem_cons_self⟩ hcreated
    ⟨exits 1, List.mem_cons_of_mem _ List.mem_cons_self, rfl⟩
  have hone : (family.story 1 childFirst).length = 1 := by decide +kernel
  rw [htold] at hone
  cases hone

end Runs

end CpuSubsystem.KeytimeImage
