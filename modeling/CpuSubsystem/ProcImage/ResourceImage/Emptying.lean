import CpuSubsystem.ProcImage.ResourceImage.Charges

/-!
# One call of `print_resource`

A call that the probe does not interrupt, from its beginning to what it returns.  The first call
jumps over the initialisation of `fd`, and works on whatever descriptor that local happens to hold.
-/

namespace CpuSubsystem.ResourceImage

open ScheduleImage (ProcId procId)

/-- The files of the process: the descriptor of `total`, on which an operation may fail although
the key is there, and what the map operations do on any other descriptor.  A call that fails gives
`none`. -/
structure Files (φ : Type*) where
  totalFd : Int
  lookupFails : ProcId → Bool
  deleteFails : ProcId → Bool
  getNextKey : φ → Int → ProcId → Option ProcId
  deleteElem : φ → Int → ProcId → Option φ

/-- The reader of `total`, and the state of what the other descriptors refer to. -/
structure Process (φ : Type*) where
  reader : Reader
  others : φ

/-- The elements that were looked up and the rows that were printed. -/
structure Output where
  looked : List (ProcId × TotalRsc)
  rows : List (ProcId × TotalRsc)
deriving DecidableEq

/-- What a call comes to: its value, the state that it leaves, its output. -/
structure Result (φ : Type*) where
  ret : Int
  process : Process φ
  output : Output

section

variable {φ : Type*} (x : Setup) (f : Files φ)

/-- The reader after `bpf_map_delete_elem`. -/
def removed (r : Reader) (k : ProcId) : Reader :=
  { r with
    kernel := step x.ignoreTgid r.kernel (.deleteTotal k)
    order := Walk.erase r.order k }

/-- `bpf_map_get_next_key`. -/
def getNextKey (w : Process φ) (fd : Int) (lookupKey : ProcId) : Option ProcId :=
  if fd = f.totalFd then Walk.next w.reader.order lookupKey
  else f.getNextKey w.others fd lookupKey

/-- `bpf_map_lookup_elem` on `total`. -/
def lookupElem (r : Reader) (k : ProcId) : Option TotalRsc :=
  if f.lookupFails k then none else r.kernel.total.lookup k

/-- `bpf_map_delete_elem`. -/
def deleteElem (w : Process φ) (fd : Int) (k : ProcId) : Option (Process φ) :=
  if fd = f.totalFd then
    if f.deleteFails k then none
    else if (w.reader.kernel.total.lookup k).isSome then
      some { w with reader := removed x w.reader k }
    else none
  else (f.deleteElem w.others fd k).map fun others => { w with others := others }

/-- The loop that looks the elements up.  `interval` is the time since the last call when so many
elements have been looked up; the value is `false` after a failed lookup, and `none` when the fuel
runs out. -/
def readPass (interval : Nat → UInt64) (r : Reader) :
    Nat → ProcId → Output → Option (Bool × Output)
  | 0, _, _ => none
  | fuel + 1, lookupKey, out =>
    match Walk.next r.order lookupKey with
    | none => some (true, out)
    | some nextKey =>
      match lookupElem f r nextKey with
      | none => some (false, out)
      | some event =>
        readPass interval r fuel nextKey
          { looked := out.looked ++ [(nextKey, event)]
            rows :=
              out.rows ++
                if shown x (interval out.looked.length) event then [(nextKey, event)] else [] }

/-- The loop at `delete_elem`. -/
def deletePass (fd : Int) : Nat → Process φ → ProcId → Option (Int × Process φ)
  | 0, _, _ => none
  | fuel + 1, w, lookupKey =>
    match getNextKey f w fd lookupKey with
    | none => some (0, w)
    | some nextKey =>
      match deleteElem x f w fd nextKey with
      | none => some (-1, w)
      | some w' => deletePass fd fuel w' nextKey

/-- `fd` is the only local that is read before it is written, when the first call jumps to
`delete_elem`. -/
def printResource (interval : Nat → UInt64) (fuel : Nat) (w : Process φ) (fd : Int) :
    Option (Result φ) :=
  if w.reader.kernel.rscCtrlMap.rscFunc then
    if w.reader.firstRsc then
      let w' := { w with reader := { w.reader with firstRsc := false } }
      (deletePass x f fd fuel w' startKey).map fun e => ⟨e.1, e.2, ⟨[], []⟩⟩
    else
      match readPass x f interval w.reader fuel startKey ⟨[], []⟩ with
      | none => none
      | some (false, out) => some ⟨-1, w, out⟩
      | some (true, out) =>
        (deletePass x f f.totalFd fuel w startKey).map fun e => ⟨e.1, e.2, out⟩
  else some ⟨0, w, ⟨[], []⟩⟩

/-- No operation on `total` fails for a key that is there. -/
def Files.Faultless : Prop := ∀ k, f.lookupFails k = false ∧ f.deleteFails k = false

/-- The keys in their order are those of the elements, and the probe made them. -/
structure Listed (order : List ProcId) (total : BpfMap ProcId TotalRsc) : Prop where
  nodup : order.Nodup
  mem : ∀ k, k ∈ order ↔ (total.lookup k).isSome = true
  made : ∀ k ∈ order, ∃ pid cpu, k = procId pid cpu

/-- The call ends, returns 0 and leaves `total` empty, and all but the first one look up every
element exactly once. -/
def Empties (interval : Nat → UInt64) (w : Process φ) (fd : Int) : Prop :=
  ∃ fuel res, printResource x f interval fuel w fd = some res ∧ res.ret = 0 ∧
    (∀ k, res.process.reader.kernel.total.lookup k = none) ∧
    (w.reader.firstRsc = false → ∀ k event, res.output.looked.count (k, event) =
      if w.reader.kernel.total.lookup k = some event then 1 else 0)

/-- From `k` on another file names keys and deletes them until it names no more. -/
inductive Drains (fd : Int) : φ → ProcId → Prop where
  | done {others : φ} {k : ProcId} (h : f.getNextKey others fd k = none) : Drains fd others k
  | step {others others' : φ} {k n : ProcId} (hn : f.getNextKey others fd k = some n)
      (hd : f.deleteElem others fd n = some others') (h : Drains fd others' n) :
      Drains fd others k

end

variable {φ : Type*} {x : Setup} {f : Files φ} {interval : Nat → UInt64} {w : Process φ} {fd : Int}
  {r : Reader}

theorem Listed.startKey_not_mem {order : List ProcId} {total : BpfMap ProcId TotalRsc}
    (h : Listed order total) : startKey ∉ order := by
  intro hk
  obtain ⟨pid, cpu, heq⟩ := h.made _ hk
  exact procId_ne_startKey pid cpu heq.symm

/-- Removing the first key leaves the others. -/
theorem Listed.tail {k : ProcId} {rest : List ProcId} {total : BpfMap ProcId TotalRsc}
    (h : Listed (k :: rest) total) :
    Walk.erase (k :: rest) k = rest ∧ k ∉ rest ∧ Listed rest (total.delete k) := by
  obtain ⟨hk, hrest⟩ := List.nodup_cons.mp h.nodup
  have herase : Walk.erase (k :: rest) k = rest := by
    have hkeep : rest.filter (fun j => j ≠ k) = rest := by
      apply List.filter_eq_self.mpr
      intro j hj
      simpa using fun heq : j = k => hk (heq ▸ hj)
    simpa [Walk.erase] using hkeep
  refine ⟨herase, hk, hrest, fun j => ?_, fun j hj => h.made j (List.mem_cons_of_mem k hj)⟩
  have hmem := h.mem j
  rw [BpfMap.lookup_delete]
  by_cases hj : j = k
  · subst hj
    simp [hk]
  · rw [if_neg hj, ← hmem]
    simp [hj]

/-- On `total` the second pass takes out one element after the other. -/
theorem deletePass_total (x : Setup) (hok : f.Faultless) {order : List ProcId} {w : Process φ}
    {k : ProcId} (ho : w.reader.order = order) (hl : Listed order w.reader.kernel.total)
    (hk : k ∉ order) :
    ∃ w', deletePass x f f.totalFd (order.length + 1) w k = some (0, w') ∧
      ∀ j, w'.reader.kernel.total.lookup j = none := by
  induction order generalizing w k with
  | nil =>
    refine ⟨w, ?_, fun j => ?_⟩
    · simp [deletePass, getNextKey, ho, Walk.next]
    · have hj := hl.mem j
      simpa using hj
  | cons n rest ih =>
    -- `k` was deleted in the round before, so the first key is the next one
    have hnext : getNextKey f w f.totalFd k = some n := by
      rw [getNextKey, if_pos rfl, ho, Walk.next_of_absent hk]
      rfl
    have hthere : (w.reader.kernel.total.lookup n).isSome = true :=
      (hl.mem n).mp List.mem_cons_self
    have hdel : deleteElem x f w f.totalFd n = some { w with reader := removed x w.reader n } := by
      rw [deleteElem, if_pos rfl, (hok n).2, if_neg Bool.false_ne_true, if_pos hthere]
    obtain ⟨herase, hn, hrest⟩ := hl.tail
    have horder : (removed x w.reader n).order = rest := by
      rw [← herase, ← ho]
      rfl
    obtain ⟨w', hw', hempty⟩ := ih (w := { w with reader := removed x w.reader n }) horder hrest hn
    refine ⟨w', ?_, hempty⟩
    rw [List.length_cons, deletePass, hnext]
    show (match deleteElem x f w f.totalFd n with
      | none => some (-1, w)
      | some w' => deletePass x f f.totalFd (rest.length + 1) w' n) = _
    rw [hdel]
    exact hw'

/-- On another descriptor the second pass does not come near `total`. -/
theorem deletePass_other (hfd : fd ≠ f.totalFd) {fuel : Nat} {k : ProcId} {e : Int × Process φ}
    (h : deletePass x f fd fuel w k = some e) :
    e.2.reader = w.reader ∧ (e.1 = 0 → Drains f fd w.others k) := by
  induction fuel generalizing w k with
  | zero => cases h
  | succ fuel ih =>
    rw [deletePass, getNextKey, if_neg hfd] at h
    cases hn : f.getNextKey w.others fd k with
    | none =>
      rw [hn] at h
      cases h
      exact ⟨rfl, fun _ => .done hn⟩
    | some n =>
      simp only [hn, deleteElem, if_neg hfd] at h
      cases hd : f.deleteElem w.others fd n with
      | none =>
        rw [hd] at h
        cases h
        exact ⟨rfl, fun hz => absurd (show (-1 : Int) = 0 from hz) (by decide)⟩
      | some others =>
        rw [hd] at h
        obtain ⟨hr, hdr⟩ := ih h
        exact ⟨hr, fun hz => .step hn hd (hdr hz)⟩

theorem Drains.deletePass (hfd : fd ≠ f.totalFd) {others : φ} {k : ProcId}
    (h : Drains f fd others k) {r : Reader} :
    ∃ fuel w', deletePass x f fd fuel ⟨r, others⟩ k = some (0, w') := by
  induction h with
  | @done others k hn =>
    refine ⟨1, ⟨r, others⟩, ?_⟩
    simp [ResourceImage.deletePass, getNextKey, hfd, hn]
  | @step others others' k n hn hd _ ih =>
    obtain ⟨fuel, w', hw'⟩ := ih
    refine ⟨fuel + 1, w', ?_⟩
    simp [ResourceImage.deletePass, getNextKey, deleteElem, hfd, hn, hd, hw']

/-- The key and the value of an element. -/
def entry (total : BpfMap ProcId TotalRsc) (k : ProcId) : Option (ProcId × TotalRsc) :=
  (total.lookup k).map fun event => (k, event)

theorem count_entries {order : List ProcId} {total : BpfMap ProcId TotalRsc}
    (h : Listed order total) (k : ProcId) (event : TotalRsc) :
    (order.filterMap (entry total)).count (k, event) =
      if total.lookup k = some event then 1 else 0 := by
  have hnodup : (order.filterMap (entry total)).Nodup := by
    apply h.nodup.filterMap
    intro i j e hi hj
    simp only [entry, Option.mem_def, Option.map_eq_some_iff] at hi hj
    obtain ⟨_, -, rfl⟩ := hi
    obtain ⟨_, -, heq⟩ := hj
    exact (congrArg Prod.fst heq).symm
  have hmem : (k, event) ∈ order.filterMap (entry total) ↔ total.lookup k = some event := by
    simp only [List.mem_filterMap, entry, Option.map_eq_some_iff, Prod.mk.injEq]
    constructor
    · rintro ⟨_, -, _, hl, rfl, rfl⟩
      exact hl
    · intro hl
      exact ⟨k, (h.mem k).mpr (by rw [hl]; rfl), event, hl, rfl, rfl⟩
  -- no key is named twice, so an element is counted once or not at all
  by_cases hl : total.lookup k = some event
  · rw [if_pos hl]
    exact List.count_eq_one_of_mem hnodup (hmem.mpr hl)
  · rw [if_neg hl]
    exact List.count_eq_zero.mpr (mt hmem.mp hl)

/-- The first pass goes from one key to the next to the end of the order. -/
theorem readPass_total (x : Setup) (interval : Nat → UInt64) (out : Output) (hok : f.Faultless)
    (hl : Listed r.order r.kernel.total) {post pre : List ProcId} {k : ProcId}
    (ho : r.order = pre ++ post) (hnext : Walk.next r.order k = post.head?) :
    ∃ rows, readPass x f interval r (post.length + 1) k out =
      some (true, ⟨out.looked ++ post.filterMap (entry r.kernel.total), rows⟩) := by
  induction post generalizing pre k out with
  | nil =>
    refine ⟨out.rows, ?_⟩
    rw [readPass, hnext, List.head?_nil, List.filterMap_nil, List.append_nil]
  | cons n rest ih =>
    have hin : n ∈ r.order := by
      rw [ho]
      exact List.mem_append_right pre List.mem_cons_self
    obtain ⟨event, hev⟩ := Option.isSome_iff_exists.mp ((hl.mem n).mp hin)
    have hlook : lookupElem f r n = some event := by
      rw [lookupElem, (hok n).1, if_neg Bool.false_ne_true, hev]
    have hpre : n ∉ pre := by
      intro hn
      have hd := hl.nodup
      rw [ho] at hd
      exact (List.nodup_append.mp hd).2.2 n hn n List.mem_cons_self rfl
    -- the pass has been through `pre` and `n`, and `rest` is left
    have hafter : Walk.next r.order n = rest.head? := by
      rw [ho]
      exact Walk.next_append hpre
    have hsplit : r.order = (pre ++ [n]) ++ rest := by
      rw [ho, List.append_assoc]
      rfl
    obtain ⟨rows, hrows⟩ := ih ⟨out.looked ++ [(n, event)],
      out.rows ++ if shown x (interval out.looked.length) event then [(n, event)] else []⟩
      hsplit hafter
    refine ⟨rows, ?_⟩
    have hentry : entry r.kernel.total n = some (n, event) := by
      rw [entry, hev]
      rfl
    rw [List.length_cons, readPass, hnext, List.head?_cons]
    simp only [hlook]
    rw [hrows, List.filterMap_cons_some hentry, List.append_assoc]
    rfl

theorem printResource_first {fuel : Nat} (hact : w.reader.kernel.rscCtrlMap.rscFunc = true)
    (hfirst : w.reader.firstRsc = true) :
    printResource x f interval fuel w fd =
      (deletePass x f fd fuel ⟨{ w.reader with firstRsc := false }, w.others⟩ startKey).map
        fun e => ⟨e.1, e.2, ⟨[], []⟩⟩ := by
  simp only [printResource, hact, hfirst, if_true]

theorem printResource_later {fuel : Nat} {out : Output}
    (hact : w.reader.kernel.rscCtrlMap.rscFunc = true) (hfirst : w.reader.firstRsc = false)
    (hread : readPass x f interval w.reader fuel startKey ⟨[], []⟩ = some (true, out)) :
    printResource x f interval fuel w fd =
      (deletePass x f f.totalFd fuel w startKey).map fun e => ⟨e.1, e.2, out⟩ := by
  simp only [printResource, hact, hfirst, hread, if_true, Bool.false_eq_true, if_false]

theorem empties_later (hok : f.Faultless) (hact : w.reader.kernel.rscCtrlMap.rscFunc = true)
    (hl : Listed w.reader.order w.reader.kernel.total) (hfirst : w.reader.firstRsc = false) :
    Empties x f interval w fd := by
  obtain ⟨rows, hread⟩ := readPass_total x interval ⟨[], []⟩ hok hl (List.nil_append _).symm
    (Walk.next_of_absent hl.startKey_not_mem)
  obtain ⟨w', hdel, hempty⟩ := deletePass_total x hok rfl hl hl.startKey_not_mem
  have hres : printResource x f interval (w.reader.order.length + 1) w fd = _ :=
    printResource_later hact hfirst hread
  rw [hdel, Option.map_some] at hres
  exact ⟨_, _, hres, rfl, hempty, fun _ => count_entries hl⟩

/-- The first call, on the descriptor of `total`. -/
theorem empties_first (hok : f.Faultless) (hact : w.reader.kernel.rscCtrlMap.rscFunc = true)
    (hl : Listed w.reader.order w.reader.kernel.total) (hfirst : w.reader.firstRsc = true) :
    Empties x f interval w f.totalFd := by
  obtain ⟨w', hdel, hempty⟩ := deletePass_total x hok
    (w := ⟨{ w.reader with firstRsc := false }, w.others⟩) rfl hl hl.startKey_not_mem
  have hres : printResource x f interval (w.reader.order.length + 1) w f.totalFd = _ :=
    printResource_first hact hfirst
  rw [hdel, Option.map_some] at hres
  exact ⟨_, _, hres, rfl, hempty, fun h => absurd (hfirst.symm.trans h) (by decide)⟩

/-- The first call, on another descriptor. -/
theorem empties_first_other (hact : w.reader.kernel.rscCtrlMap.rscFunc = true)
    (hfirst : w.reader.firstRsc = true) (hfd : fd ≠ f.totalFd) :
    Empties x f interval w fd ↔
      (∀ k, w.reader.kernel.total.lookup k = none) ∧ Drains f fd w.others startKey := by
  unfold Empties
  simp only [printResource_first hact hfirst, Option.map_eq_some_iff]
  constructor
  · rintro ⟨fuel, _, ⟨e, hdel, rfl⟩, hret, hempty, -⟩
    obtain ⟨hr, hdrains⟩ := deletePass_other hfd hdel
    rw [hr] at hempty
    exact ⟨hempty, hdrains hret⟩
  · rintro ⟨hempty, hdrains⟩
    obtain ⟨fuel, w', hdel⟩ := hdrains.deletePass (x := x) hfd
      (r := { w.reader with firstRsc := false })
    have hr := (deletePass_other hfd hdel).1
    refine ⟨fuel, _, ⟨_, hdel, rfl⟩, rfl, ?_, fun h => absurd (hfirst.symm.trans h) (by decide)⟩
    rw [hr]
    exact hempty

section Main

variable (x f interval w fd)

/-- `print_resource` does its work in every call but the first.  That one does it when the stack
happens to hold the descriptor of `total`; otherwise `total` has to be empty, and what the stray
descriptor refers to has to run out of keys. -/
theorem empties_iff (hok : f.Faultless) (hact : w.reader.kernel.rscCtrlMap.rscFunc = true)
    (hl : Listed w.reader.order w.reader.kernel.total) :
    Empties x f interval w fd ↔
      w.reader.firstRsc = false ∨ fd = f.totalFd ∨
        ((∀ k, w.reader.kernel.total.lookup k = none) ∧ Drains f fd w.others startKey) := by
  cases hfirst : w.reader.firstRsc with
  | false => simp [empties_later hok hact hl hfirst]
  | true =>
    by_cases hfd : fd = f.totalFd
    · subst hfd
      simp [empties_first hok hact hl hfirst]
    · simp [empties_first_other hact hfirst hfd, hfd]

end Main

section Refinement

variable (x) in
/-- The reader that makes one operation at a time comes, by itself, from the one state to the other
and prints these rows. -/
def RunsTo (c : RscCtrl) (r r' : Reader) (rows : List (ProcId × TotalRsc)) : Prop :=
  ∃ ticks : List Tick, (∀ t ∈ ticks, ∀ e, t ≠ .kernel e) ∧ (reader x c).Leads r ticks r' rows

variable {c : RscCtrl}

theorem RunsTo.refl (r : Reader) : RunsTo x c r r [] := by
  refine ⟨[], fun t ht => ?_, .nil r⟩
  cases ht

theorem RunsTo.tick {r₁ r' : Reader} {rows₁ rows : List (ProcId × TotalRsc)} {t : Tick}
    (hown : ∀ e, t ≠ .kernel e) (hstep : (reader x c).step r t = (r₁, rows₁))
    (h : RunsTo x c r₁ r' rows) : RunsTo x c r r' (rows₁ ++ rows) := by
  obtain ⟨ticks, hticks, hleads⟩ := h
  refine ⟨t :: ticks, fun u hu => ?_, hleads.after hstep⟩
  rcases List.mem_cons.mp hu with rfl | hu
  · exact hown
  · exact hticks u hu

theorem RunsTo.append {r₁ r' : Reader} {rows₁ rows : List (ProcId × TotalRsc)}
    (h₁ : RunsTo x c r r₁ rows₁) (h : RunsTo x c r₁ r' rows) :
    RunsTo x c r r' (rows₁ ++ rows) := by
  obtain ⟨ticks₁, hown₁, hleads₁⟩ := h₁
  obtain ⟨ticks, hown, hleads⟩ := h
  refine ⟨ticks₁ ++ ticks, fun t ht => ?_, hleads₁.append hleads⟩
  rcases List.mem_append.mp ht with ht | ht
  · exact hown₁ t ht
  · exact hown t ht

theorem RunsTo.call {r₁ r' : Reader} {rows : List (ProcId × TotalRsc)}
    (h : RunsTo x c r₁ r' rows) (strayFd : Bool) (hstep : ResourceImage.call r strayFd = r₁) :
    RunsTo x c r r' rows := by
  have htick : (reader x c).step r (.call strayFd) = (r₁, []) := by
    rw [← hstep]
    rfl
  exact h.tick (fun e he => by cases he) htick

theorem RunsTo.resume {r₁ r' : Reader} {rows₁ rows : List (ProcId × TotalRsc)}
    (h : RunsTo x c r₁ r' rows) (since : UInt64)
    (hstep : ResourceImage.resume x r since = (r₁, rows₁)) :
    RunsTo x c r r' (rows₁ ++ rows) :=
  h.tick (t := .resume since) (fun e he => by cases he) hstep

/-- An operation that prints nothing. -/
theorem RunsTo.silent {r₁ r' : Reader} {rows : List (ProcId × TotalRsc)}
    (h : RunsTo x c r₁ r' rows) (hstep : ResourceImage.resume x r 0 = (r₁, [])) :
    RunsTo x c r r' rows :=
  h.resume 0 hstep

/-- The operation that asks for the key after `k`, in the first loop. -/
theorem RunsTo.reading {k : ProcId} {r' : Reader} {rows : List (ProcId × TotalRsc)}
    (h : RunsTo x c { r with phase := (Walk.next r.order k).elim (.deleting startKey) .looking }
      r' rows) : RunsTo x c { r with phase := .reading k } r' rows := by
  apply h.silent
  simp only [ResourceImage.resume]
  cases Walk.next r.order k <;> rfl

/-- And in the second one. -/
theorem RunsTo.deleting {k : ProcId} {r' : Reader} {rows : List (ProcId × TotalRsc)}
    (h : RunsTo x c { r with phase := (Walk.next r.order k).elim .idle .removing } r' rows) :
    RunsTo x c { r with phase := .deleting k } r' rows := by
  apply h.silent
  simp only [ResourceImage.resume]
  cases Walk.next r.order k <;> rfl

theorem RunsTo.looking {n : ProcId} {event : TotalRsc} {since : UInt64} {r' : Reader}
    {rows : List (ProcId × TotalRsc)} (hev : r.kernel.total.lookup n = some event)
    (h : RunsTo x c { r with phase := .reading n } r' rows) :
    RunsTo x c { r with phase := .looking n } r'
      ((if shown x since event then [(n, event)] else []) ++ rows) := by
  apply h.resume since
  simp only [ResourceImage.resume, hev]

theorem RunsTo.looking_absent {n : ProcId} (hev : r.kernel.total.lookup n = none) :
    RunsTo x c { r with phase := .looking n } { r with phase := .idle } [] := by
  apply (RunsTo.refl _).silent
  simp only [ResourceImage.resume, hev]

theorem RunsTo.removing {n : ProcId} {r' : Reader} {rows : List (ProcId × TotalRsc)}
    (hthere : (r.kernel.total.lookup n).isSome = true)
    (h : RunsTo x c { removed x r n with phase := .deleting n } r' rows) :
    RunsTo x c { r with phase := .removing n } r' rows := by
  apply h.silent
  simp only [ResourceImage.resume, hthere, if_true, removed]

theorem RunsTo.removing_absent {n : ProcId} (habsent : ¬(r.kernel.total.lookup n).isSome = true) :
    RunsTo x c { r with phase := .removing n } { r with phase := .idle } [] := by
  apply (RunsTo.refl _).silent
  simp only [ResourceImage.resume, if_neg habsent]

/-- One round of the first loop is an operation that names a key and one that looks it up. -/
theorem readPass_runsTo (hok : f.Faultless) {fuel : Nat} {k : ProcId} {out out' : Output}
    {done : Bool} (h : readPass x f interval r fuel k out = some (done, out')) :
    ∃ rows, out'.rows = out.rows ++ rows ∧ RunsTo x c { r with phase := .reading k }
      { r with phase := if done then .deleting startKey else .idle } rows := by
  induction fuel generalizing k out with
  | zero => cases h
  | succ fuel ih =>
    rw [readPass] at h
    cases hn : Walk.next r.order k with
    | none =>
      rw [hn] at h
      cases h
      refine ⟨[], (List.append_nil _).symm, RunsTo.reading ?_⟩
      rw [hn]
      exact RunsTo.refl _
    | some n =>
      simp only [hn, lookupElem, (hok n).1, Bool.false_eq_true, if_false] at h
      cases hev : r.kernel.total.lookup n with
      | none =>
        rw [hev] at h
        cases h
        refine ⟨[], (List.append_nil _).symm, RunsTo.reading ?_⟩
        rw [hn]
        exact RunsTo.looking_absent hev
      | some event =>
        rw [hev] at h
        obtain ⟨rows, hrows, hruns⟩ := ih h
        refine ⟨_, hrows.trans (List.append_assoc _ _ _), RunsTo.reading ?_⟩
        rw [hn]
        exact hruns.looking hev

theorem deletePass_runsTo (hok : f.Faultless) {fuel : Nat} {k : ProcId} {e : Int × Process φ}
    (h : deletePass x f f.totalFd fuel w k = some e) :
    RunsTo x c { w.reader with phase := .deleting k } { e.2.reader with phase := .idle } [] := by
  induction fuel generalizing w k with
  | zero => cases h
  | succ fuel ih =>
    rw [deletePass, getNextKey, if_pos rfl] at h
    apply RunsTo.deleting
    cases hn : Walk.next w.reader.order k with
    | none =>
      rw [hn] at h
      cases h
      exact RunsTo.refl _
    | some n =>
      simp only [hn, deleteElem, if_true, (hok n).2, Bool.false_eq_true, if_false] at h
      by_cases hthere : (w.reader.kernel.total.lookup n).isSome = true
      · rw [if_pos hthere] at h
        exact (ih h).removing hthere
      · rw [if_neg hthere] at h
        cases h
        exact RunsTo.removing_absent hthere

/-- What a call does in one go is what the reader does operation by operation. -/
theorem printResource_runsTo (hok : f.Faultless) (hidle : w.reader.phase = .idle) {fuel : Nat}
    {res : Result φ} (h : printResource x f interval fuel w fd = some res) :
    RunsTo x c w.reader { res.process.reader with phase := .idle } res.output.rows := by
  have hself : ({ w.reader with phase := .idle } : Reader) = w.reader := by
    rw [← hidle]
  unfold printResource at h
  by_cases hact : w.reader.kernel.rscCtrlMap.rscFunc = true
  · by_cases hfirst : w.reader.firstRsc = true
    · simp only [hact, hfirst, if_true, Option.map_eq_some_iff] at h
      obtain ⟨e, hdel, rfl⟩ := h
      -- the reader is told whether the stray descriptor is that of `total`
      by_cases hfd : fd = f.totalFd
      · subst hfd
        apply (deletePass_runsTo hok hdel).call true
        simp [ResourceImage.call, hidle, hact, hfirst]
      · apply (RunsTo.refl _).call false
        simp [ResourceImage.call, hidle, hact, hfirst, (deletePass_other hfd hdel).1]
    · have hlater : w.reader.firstRsc = false := by simpa using hfirst
      simp only [hact, hlater, if_true, Bool.false_eq_true, if_false] at h
      have hcalled : ResourceImage.call w.reader false =
          { w.reader with phase := .reading startKey } := by
        simp [ResourceImage.call, hidle, hact, hlater]
      cases hread : readPass x f interval w.reader fuel startKey ⟨[], []⟩ with
      | none =>
        rw [hread] at h
        cases h
      | some e =>
        obtain ⟨done, out⟩ := e
        obtain ⟨rows, hrows, hruns⟩ := readPass_runsTo (c := c) hok hread
        have hout : out.rows = rows := by simpa using hrows
        cases done with
        | false =>
          -- a lookup failed, and nothing is deleted
          rw [hread] at h
          cases h
          rw [hout]
          exact hruns.call false hcalled
        | true =>
          simp only [hread, Option.map_eq_some_iff] at h
          obtain ⟨e, hdel, rfl⟩ := h
          show RunsTo x c w.reader { e.2.reader with phase := .idle } out.rows
          rw [hout, ← List.append_nil rows]
          exact (hruns.append (deletePass_runsTo hok hdel)).call false hcalled
  · simp only [hact] at h
    cases h
    rw [hself]
    exact RunsTo.refl _

end Refinement

/-- Only `total` is open, as descriptor 7. -/
def onlyTotal : Files Unit where
  totalFd := 7
  lookupFails _ := false
  deleteFails _ := false
  getNextKey _ _ _ := none
  deleteElem _ _ _ := none

/-- Task 5 was charged once. -/
def charged (firstRsc : Bool) : Process Unit where
  reader :=
    { kernel := { initial all with
        total := BpfMap.empty.store (procId 5 0) ⟨5, -1, 0, 20, 4, 1, 1⟩ }
      order := [procId 5 0]
      firstRsc := firstRsc
      phase := .idle }
  others := ()

theorem charged_listed (firstRsc : Bool) :
    Listed (charged firstRsc).reader.order (charged firstRsc).reader.kernel.total := by
  refine ⟨List.nodup_singleton _, fun k => ?_, fun k hk => ⟨5, 0, List.mem_singleton.mp hk⟩⟩
  show k ∈ [procId 5 0] ↔ ((BpfMap.empty.store (procId 5 0) _).lookup k).isSome = true
  rw [List.mem_singleton, BpfMap.lookup_store]
  split <;> simp_all

theorem empties_iff_charged :
    Empties desk onlyTotal (fun _ => 1000) (charged false) 0 :=
  (empties_iff desk onlyTotal (fun _ => 1000) (charged false) 0 (fun _ => ⟨rfl, rfl⟩) rfl
    (charged_listed false)).mpr (Or.inl rfl)

/-- The stack holds 0 in the first call. -/
theorem not_empties_firstCall :
    onlyTotal.Faultless ∧ (charged true).reader.kernel.rscCtrlMap.rscFunc = true ∧
      Listed (charged true).reader.order (charged true).reader.kernel.total ∧
      ¬Empties desk onlyTotal (fun _ => 1000) (charged true) 0 := by
  refine ⟨fun _ => ⟨rfl, rfl⟩, rfl, charged_listed true, ?_⟩
  rw [empties_first_other rfl rfl (by decide)]
  intro h
  have h5 := h.1 (procId 5 0)
  revert h5
  decide

end CpuSubsystem.ResourceImage
