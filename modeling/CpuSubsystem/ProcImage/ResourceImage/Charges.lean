import CpuSubsystem.ProcImage.ResourceImage.Conservation

/-!
# What becomes of a charge

A charge is in `total`, then in a row as well, and in the row alone when the element is removed.
Charging an element moves it to the head of its bucket, so that a charge in the wrong moment makes a
pass meet an element twice or not at all.
-/

namespace CpuSubsystem.ResourceImage

open ScheduleImage (ProcId procId)

/-- The charge with the number `i` is among these. -/
def contains (i : Nat) (l : List (Nat × StartRsc)) : Bool := l.any fun e => e.1 == i

/-- In how many places the charge `i` is: `total`, what the first call removed, and the rows. -/
def Ledger.places (g : Ledger) (i : Nat) : Nat :=
  (g.held :: g.cleared :: g.looks.map Prod.fst).countP (contains i)

section

variable (x : Setup) (p : ProcId) (i : Nat)

/-- A call (other than the first) has looked `p` up, or is removing what it has looked up. -/
def Late (g : Ledger) : Phase → Prop
  | .idle => False
  | .reading _ | .looking _ => g.seen = true
  | .deleting _ | .removing _ => g.first = false

/-- Writing `k` moves it past the walk, or the walk's key to the front of `p`: in the first pass `p`
will not be looked up any more, or will be a second time; in the second one it will not be
removed. -/
def Displaces (g : Ledger) (r : Reader) (k : ProcId) : Prop :=
  match r.phase with
  | .reading j | .looking j =>
    j ≠ p ∧ j ∈ r.order ∧
      if g.seen then j = k ∧ x.bucket j = x.bucket p else k = p ∧ x.bucket p ≤ x.bucket j
  | .deleting j => g.first = false ∧ k = p ∧ j ∈ r.order ∧ x.bucket j = x.bucket p
  | .removing _ | .idle => False

/-- The charge `i` of `p` is not made late, and while it is in `total` nothing displaces it. -/
def Unharmed (g : Ledger) (r : Reader) : Tick → Prop
  | .kernel e => ∀ q ∈ charging x r.kernel e,
      (q.1 = p ∧ g.made.length = i → ¬Late g r.phase) ∧
        ((q.1 = p ∧ g.made.length = i) ∨ contains i g.held = true → ¬Displaces x p g r q.1)
  | .call _ | .resume _ => True

/-- The first pass still comes to `p`. -/
def Awaits (order : List ProcId) : Phase → Prop
  | .idle => True
  | .reading k => (k = startKey ∧ p ∈ order) ∨ Walk.Reaches x.bucket order k p
  | .looking k => k = p ∨ Walk.Before order k p
  | .deleting _ | .removing _ => False

/-- The first pass has come to `p` for the only time, and the second one still comes to it. -/
def Leaves (order : List ProcId) : Phase → Prop
  | .idle => False
  | .reading k => k = p ∨ Walk.Before order p k
  | .looking k => Walk.Before order p k
  | .deleting k => (k = startKey ∧ p ∈ order) ∨ Walk.Reaches x.bucket order k p
  | .removing k => k = p ∨ (p ∈ order ∧ x.bucket k ≤ x.bucket p)

/-- How many rows have taken the charge `i`. -/
def Ledger.lookedUp (g : Ledger) : Nat := g.looks.countP fun l => contains i l.1

inductive Place (g : Ledger) (order : List ProcId) (phase : Phase) : Prop
  | waiting (held : contains i g.held = true) (looks : g.lookedUp i = 0)
      (cleared : contains i g.cleared = false)
      (awaits : g.first = true ∨
        (Awaits x p order phase ∧ (phase = .idle ∨ g.seen = false)))
  | taken (held : contains i g.held = true) (looks : g.lookedUp i = 1)
      (cleared : contains i g.cleared = false) (first : g.first = false) (seen : g.seen = true)
      (leaves : Leaves x p order phase)
  | gone (held : contains i g.held = false)
      (places : g.lookedUp i + (if contains i g.cleared then 1 else 0) = 1)

end

variable {x : Setup} {p : ProcId} {i : Nat} {c : RscCtrl} {r : Reader} {g : Ledger}
  {order : List ProcId} {phase : Phase} {rows : List StartRsc}

@[simp] theorem contains_nil : contains i [] = false := rfl

theorem contains_append (l l' : List (Nat × StartRsc)) :
    contains i (l ++ l') = (contains i l || contains i l') := List.any_append

theorem contains_singleton (j : Nat) (a : StartRsc) : contains i [(j, a)] = (j == i) :=
  Bool.or_false _

theorem ne_nil_of_contains {l : List (Nat × StartRsc)} (h : contains i l = true) : l ≠ [] := by
  rintro rfl
  cases h

/-- Numbers are given out in order. -/
theorem Inv.contains_lt (h : Inv x p g r rows) {l : List (Nat × StartRsc)}
    (hl : l.Sublist g.made) (hi : contains i l = true) : i < g.made.length := by
  obtain ⟨e, he, hei⟩ := List.any_eq_true.mp hi
  have hmem : e.1 ∈ g.made.map Prod.fst := List.mem_map_of_mem (hl.subset he)
  rw [h.numbers, List.mem_range, beq_iff_eq.mp hei] at hmem
  exact hmem

theorem Inv.cleared_sublist (h : Inv x p g r rows) : g.cleared.Sublist g.made :=
  (List.sublist_append_left _ _).trans h.held

/-! ## Charges -/

/-- Another task is charged. -/
theorem Awaits.write (hs : Walk.Sound x.bucket order) (h : Awaits x p order phase) {k : ProcId}
    (hk : k ≠ p) : Awaits x p (Walk.write x.bucket order k) phase := by
  cases phase with
  | idle => exact h
  | reading j =>
    rcases h with ⟨hj, hp⟩ | h
    · exact Or.inl ⟨hj, Walk.mem_write.mpr (Or.inr hp)⟩
    · exact Or.inr (h.write hk)
  | looking j =>
    rcases h with h | h
    · exact Or.inl h
    · exact Or.inr (h.write_right hs fun heq => absurd heq hk)
  | deleting j => exact h
  | removing j => exact h

/-- The first pass stands at another element, and would not come to `p` any more. -/
theorem displaces_ahead {j : ProcId} (hphase : r.phase = .reading j ∨ r.phase = .looking j)
    (hseen : g.seen = false) (hne : j ≠ p) (hj : j ∈ r.order) (hle : x.bucket p ≤ x.bucket j) :
    Displaces x p g r p := by
  have hcond : j ≠ p ∧ j ∈ r.order ∧
      if g.seen then j = p ∧ x.bucket j = x.bucket p else p = p ∧ x.bucket p ≤ x.bucket j := by
    rw [hseen, if_neg Bool.false_ne_true]
    exact ⟨hne, hj, rfl, hle⟩
  rcases hphase with hphase | hphase
  · rw [Displaces, hphase]
    exact hcond
  · rw [Displaces, hphase]
    exact hcond

/-- `p` is charged, in front of the walk. -/
theorem Awaits.charge (hs : Walk.Sound x.bucket r.order) (hphase : r.phase = phase)
    (h : Awaits x p r.order phase) (hseen : g.seen = false) (hd : ¬Displaces x p g r p) :
    Awaits x p (Walk.write x.bucket r.order p) phase := by
  cases phase with
  | idle => exact h
  | reading j =>
    rcases h with ⟨hj, hp⟩ | h
    · exact Or.inl ⟨hj, Walk.mem_write.mpr (Or.inr hp)⟩
    · right
      refine h.write_self fun hj heq => hd ?_
      exact displaces_ahead (Or.inl hphase) hseen ((h.before hj).ne hs) hj heq.ge
  | looking j =>
    rcases h with h | h
    · exact Or.inl h
    · right
      refine Walk.before_written h.mem_left (Nat.lt_of_not_le fun hle => hd ?_)
      exact displaces_ahead (Or.inr hphase) hseen (h.ne hs) h.mem_left hle
  | deleting j => exact h
  | removing j => exact h

/-- `p` is charged before the first pass comes to it, for the first time in this call or not. -/
theorem Inv.awaits_charge (h : Inv x p g r rows) (hp : p ≠ startKey) (hlate : ¬Late g r.phase)
    (hd : ¬Displaces x p g r p) :
    g.first = true ∨ (Awaits x p (Walk.write x.bucket r.order p) r.phase ∧
      (r.phase = .idle ∨ g.seen = false)) := by
  have hmem : p ∈ Walk.write x.bucket r.order p := Walk.mem_write.mpr (Or.inl rfl)
  cases hphase : r.phase with
  | idle => exact Or.inr ⟨trivial, Or.inl rfl⟩
  | reading j =>
    rw [hphase] at hlate
    have hseen : g.seen = false := Bool.eq_false_iff.mpr hlate
    refine Or.inr ⟨?_, Or.inr hseen⟩
    rcases h.position j hphase with rfl | hj
    · exact Or.inl ⟨rfl, hmem⟩
    · have hne : j ≠ p := by
        rintro rfl
        rcases h.seen hphase with heq | hs
        · exact hp heq
        · exact Bool.false_ne_true (hseen.symm.trans hs)
      have hlt : x.bucket j < x.bucket p :=
        Nat.lt_of_not_le fun hle => hd (displaces_ahead (Or.inl hphase) hseen hne hj hle)
      exact Or.inr ⟨hmem, Nat.le_of_lt hlt, fun _ => Walk.before_written hj hlt⟩
  | looking j =>
    rw [hphase] at hlate
    have hseen : g.seen = false := Bool.eq_false_iff.mpr hlate
    refine Or.inr ⟨?_, Or.inr hseen⟩
    by_cases hne : j = p
    · exact Or.inl hne
    · have hj := h.present j (Or.inl hphase)
      refine Or.inr (Walk.before_written hj (Nat.lt_of_not_le fun hle => hd ?_))
      exact displaces_ahead (Or.inr hphase) hseen hne hj hle
  | deleting j =>
    rw [hphase] at hlate
    exact Or.inl (Bool.not_eq_false _ ▸ hlate)
  | removing j =>
    rw [hphase] at hlate
    exact Or.inl (Bool.not_eq_false _ ▸ hlate)

/-- Any task is charged after `p` was looked up. -/
theorem Leaves.write (hs : Walk.Sound x.bucket r.order) (hphase : r.phase = phase)
    (h : Leaves x p r.order phase) (hfirst : g.first = false) (hseen : g.seen = true)
    {k : ProcId} (hd : ¬Displaces x p g r k) :
    Leaves x p (Walk.write x.bucket r.order k) phase := by
  -- the walk's key stays behind `p`
  have hbehind : ∀ j, phase = .reading j ∨ phase = .looking j → Walk.Before r.order p j →
      Walk.Before (Walk.write x.bucket r.order k) p j := by
    intro j hj hb
    refine hb.write_right hs fun hk heq => hd ?_
    rw [← hphase] at hj
    have hcond : j ≠ p ∧ j ∈ r.order ∧
        if g.seen then j = k ∧ x.bucket j = x.bucket p else k = p ∧ x.bucket p ≤ x.bucket j := by
      rw [hseen, if_pos rfl]
      exact ⟨(hb.ne hs).symm, hb.mem_right, hk.symm, heq.symm⟩
    rcases hj with hj | hj
    · rw [Displaces, hj]
      exact hcond
    · rw [Displaces, hj]
      exact hcond
  cases phase with
  | idle => exact h
  | reading j =>
    rcases h with h | h
    · exact Or.inl h
    · exact Or.inr (hbehind j (Or.inl rfl) h)
  | looking j => exact hbehind j (Or.inr rfl) h
  | deleting j =>
    rcases h with ⟨hj, hp⟩ | h
    · exact Or.inl ⟨hj, Walk.mem_write.mpr (Or.inr hp)⟩
    · by_cases hk : k = p
      · subst hk
        refine Or.inr (h.write_self fun hj heq => hd ?_)
        rw [Displaces, hphase]
        exact ⟨hfirst, rfl, hj, heq⟩
      · exact Or.inr (h.write hk)
  | removing j =>
    rcases h with h | ⟨hp, hle⟩
    · exact Or.inl h
    · exact Or.inr ⟨Walk.mem_write.mpr (Or.inr hp), hle⟩

/-- What a charge of `p` does to the place of the others. -/
theorem contains_charge (a : StartRsc) (hi : i ≠ g.made.length) :
    contains i (g.charge a).held = contains i g.held := by
  rw [Ledger.charge, contains_append, contains_singleton, beq_eq_false_iff_ne.mpr (Ne.symm hi),
    Bool.or_false]

/-- A new charge of `p` is in `total` alone. -/
theorem Place.charge (hinv : Inv x p g r rows) (a : StartRsc) (hp : p ≠ startKey)
    (hlate : ¬Late g r.phase) (hd : ¬Displaces x p g r p) :
    Place x p g.made.length (g.charge a) (Walk.write x.bucket r.order p) r.phase := by
  have hfresh : ∀ l : List (Nat × StartRsc), l.Sublist g.made →
      contains g.made.length l = false := by
    intro l hl
    rw [Bool.eq_false_iff]
    exact fun hc => Nat.lt_irrefl _ (hinv.contains_lt hl hc)
  refine .waiting ?_ ?_ (hfresh _ hinv.cleared_sublist) (hinv.awaits_charge hp hlate hd)
  · rw [Ledger.charge, contains_append, contains_singleton, beq_self_eq_true, Bool.or_true]
  · refine List.countP_eq_zero.mpr fun l hl => ?_
    rw [hfresh _ (hinv.looks l hl)]
    exact Bool.false_ne_true

/-- A write leaves an earlier charge where it is, unless it displaces it.  The ledger changes in
`held` only. -/
theorem Place.write (hinv : Inv x p g r rows) (h : Place x p i g r.order r.phase) {g' : Ledger}
    (hheld : contains i g'.held = contains i g.held) (hlooks : g'.looks = g.looks)
    (hcleared : g'.cleared = g.cleared) (hfirst : g'.first = g.first) (hseen : g'.seen = g.seen)
    {k : ProcId} (hd : contains i g.held = true → ¬Displaces x p g r k) :
    Place x p i g' (Walk.write x.bucket r.order k) r.phase := by
  have hlooked : g'.lookedUp i = g.lookedUp i := by rw [Ledger.lookedUp, hlooks]; rfl
  cases h with
  | waiting held looks cleared awaits =>
    refine .waiting (hheld.trans held) (hlooked.trans looks) (hcleared ▸ cleared) ?_
    rw [hfirst, hseen]
    refine awaits.imp_right fun hawaits => ⟨?_, hawaits.2⟩
    by_cases hk : k = p
    · subst hk
      rcases hawaits.2 with hidle | hunseen
      · rw [hidle]
        trivial
      · exact hawaits.1.charge hinv.sound rfl hunseen (hd held)
    · exact hawaits.1.write hinv.sound hk
  | taken held looks cleared first seen leaves =>
    exact .taken (hheld.trans held) (hlooked.trans looks) (hcleared ▸ cleared)
      (hfirst.trans first) (hseen.trans seen) (leaves.write hinv.sound rfl first seen (hd held))
  | gone held places =>
    exact .gone (hheld.trans held) (by rw [hlooked, hcleared]; exact places)

theorem Place.kernel (hinv : Inv x p g r rows) {e : Event} (hserved : (Tick.kernel e).Served)
    (hu : Unharmed x p i g r (.kernel e))
    (h : i < g.made.length → Place x p i g r.order r.phase)
    (hi : i < (g.after x p r (.kernel e)).made.length) :
    Place x p i (g.after x p r (.kernel e)) (onKernel x r e).order (onKernel x r e).phase := by
  cases hch : charging x r.kernel e with
  | none =>
    have hr : onKernel x r e = { r with kernel := step x.ignoreTgid r.kernel e } := by
      simp only [onKernel, hch]
    have hg : g.after x p r (.kernel e) = g := by
      simp only [Ledger.after, hch]
    rw [hg] at hi ⊢
    rw [hr]
    exact h hi
  | some q =>
    obtain ⟨k, a⟩ := q
    obtain ⟨hlate, hd⟩ := hu (k, a) hch
    have hstart := (step_charging hserved hch).1
    have hr : onKernel x r e = { r with
        kernel := step x.ignoreTgid r.kernel e
        order := Walk.write x.bucket r.order k } := by
      simp only [onKernel, hch]
    have hg : g.after x p r (.kernel e) = if k = p then g.charge a else g := by
      simp only [Ledger.after, hch]
    rw [hg] at hi ⊢
    rw [hr]
    dsimp only
    by_cases hk : k = p
    · -- the charge is of `p`: it is the charge `i`, or comes after it
      subst hk
      rw [if_pos rfl] at hi ⊢
      by_cases hnew : g.made.length = i
      · subst hnew
        exact Place.charge hinv a hstart (hlate ⟨rfl, rfl⟩) (hd (Or.inl ⟨rfl, rfl⟩))
      · have hlt : i < g.made.length := by
          simp only [Ledger.charge, List.length_append, List.length_singleton] at hi
          omega
        exact (h hlt).write hinv (contains_charge a (Nat.ne_of_lt hlt)) rfl rfl rfl rfl
          fun held => hd (Or.inr held)
    · rw [if_neg hk] at hi ⊢
      exact (h hi).write hinv rfl rfl rfl rfl rfl fun held => hd (Or.inr held)

/-! ## Calls and map operations -/

theorem Place.call (hinv : Inv x p g r rows) (h : Place x p i g r.order r.phase) (strayFd : Bool) :
    Place x p i (g.after x p r (.call strayFd)) (call r strayFd).order
      (call r strayFd).phase := by
  rcases call_cases x p g r strayFd with ⟨hr, hg⟩ | ⟨hidle, hg, hbegins⟩
  · rw [hr, hg]
    exact h
  · rw [hidle] at h
    have horder : (ResourceImage.call r strayFd).order = r.order := by
      rcases hbegins with ⟨-, phase, -, hr⟩ | ⟨-, hr⟩ <;> rw [hr]
    rw [hg, horder]
    cases h with
    | waiting held looks cleared awaits =>
      refine .waiting held looks cleared ?_
      rcases hbegins with ⟨hfirst, -⟩ | ⟨-, hr⟩
      · exact Or.inl hfirst
      · rw [hr]
        exact Or.inr ⟨Or.inl ⟨rfl, hinv.mem_order (ne_nil_of_contains held)⟩, Or.inr rfl⟩
    | taken held looks cleared first seen leaves => exact leaves.elim
    | gone held places => exact .gone held places

section Resume

variable {k : ProcId} (interval : UInt64)

/-- A step of the walk that is no look and no removal. -/
theorem Place.move {phase' : Phase} (h : Place x p i g order phase)
    (hidle : phase ≠ .idle) (hawaits : Awaits x p order phase → Awaits x p order phase')
    (hleaves : contains i g.held = true → Leaves x p order phase → Leaves x p order phase') :
    Place x p i g order phase' := by
  cases h with
  | waiting held looks cleared awaits =>
    exact .waiting held looks cleared (awaits.imp_right fun ⟨ha, hunseen⟩ =>
      ⟨hawaits ha, Or.inr (hunseen.resolve_left hidle)⟩)
  | taken held looks cleared first seen leaves =>
    exact .taken held looks cleared first seen (hleaves held leaves)
  | gone held places => exact .gone held places

theorem Place.reading (hinv : Inv x p g r rows) (h : Place x p i g r.order (.reading k)) :
    Place x p i g r.order ((Walk.next r.order k).elim (.deleting startKey) .looking) := by
  refine h.move Phase.noConfusion (fun ha => ?_) fun hheld hl => ?_
  · -- the walk does not end before it comes to `p`
    have hahead : ∃ n, Walk.next r.order k = some n ∧ (n = p ∨ Walk.Before r.order n p) := by
      rcases ha with ⟨rfl, hp⟩ | hreaches
      · rw [Walk.next_of_absent hinv.start]
        exact Walk.head_before hp
      · exact hreaches.next
    obtain ⟨n, hn, hcase⟩ := hahead
    rw [hn]
    exact hcase
  · have hp := hinv.mem_order (ne_nil_of_contains hheld)
    cases hn : Walk.next r.order k with
    | none => exact Or.inl ⟨rfl, hp⟩
    | some n =>
      rcases hl with rfl | hbefore
      · exact Walk.before_next hinv.sound hp hn
      · exact hbefore.next hinv.sound hn

theorem Place.deleting (hinv : Inv x p g r rows) (h : Place x p i g r.order (.deleting k)) :
    Place x p i g r.order ((Walk.next r.order k).elim .idle .removing) := by
  refine h.move Phase.noConfusion (fun ha => ha.elim) fun _ hl => ?_
  have hahead : ∃ n, Walk.next r.order k = some n ∧ (n = p ∨ Walk.Before r.order n p) := by
    rcases hl with ⟨rfl, hp⟩ | hreaches
    · rw [Walk.next_of_absent hinv.start]
      exact Walk.head_before hp
    · exact hreaches.next
  obtain ⟨n, hn, hcase⟩ := hahead
  rw [hn]
  exact hcase.imp_right fun hbefore => ⟨hbefore.mem_right, hbefore.bucket_le hinv.sound⟩

theorem Place.looking (hinv : Inv x p g r rows) (hphase : r.phase = .looking k)
    (h : Place x p i g r.order (.looking k)) :
    Place x p i (g.after x p r (.resume interval)) r.order (.reading k) := by
  have hfirst := hinv.not_first hphase rfl
  by_cases hk : k = p
  · -- the row takes what is in `total`
    subst hk
    obtain ⟨event, hevent, -⟩ := hinv.resume_looking interval hphase
    rw [after_looking interval hphase hevent]
    generalize shown x interval event = shown
    have hlooked : (g.look shown).lookedUp i =
        g.lookedUp i + if contains i g.held then 1 else 0 := by
      rw [Ledger.lookedUp, Ledger.look, List.countP_append, List.countP_singleton]
      rfl
    cases h with
    | waiting held looks cleared awaits =>
      refine .taken held ?_ cleared hfirst rfl (Or.inl rfl)
      rw [hlooked, looks, held, if_pos rfl]
    | taken held looks cleared first seen leaves => exact absurd rfl (leaves.ne hinv.sound)
    | gone held places =>
      refine .gone held ?_
      rw [hlooked, held, if_neg Bool.false_ne_true]
      exact places
  · have hne : r.phase ≠ .looking p := fun heq => hk (Phase.looking.inj (hphase.symm.trans heq))
    rw [after_resume_of_ne interval hne (by rw [hphase]; exact Phase.noConfusion)]
    refine h.move Phase.noConfusion (fun ha => Or.inr ?_) fun _ hl => Or.inr hl
    have hbefore := ha.resolve_left hk
    exact ⟨hbefore.mem_right, hbefore.bucket_le hinv.sound, fun _ => hbefore⟩

theorem Place.removing (hphase : r.phase = .removing k) (h : Place x p i g r.order (.removing k)) :
    Place x p i (g.after x p r (.resume interval)) (Walk.erase r.order k) (.deleting k) := by
  by_cases hk : k = p
  · subst hk
    rw [after_removing interval hphase]
    have hlooked : g.remove.lookedUp i = g.lookedUp i := rfl
    cases h with
    | waiting held looks cleared awaits =>
      -- only the first call removes what was not looked up
      have hfirst : g.first = true := awaits.resolve_right fun hpos => hpos.1
      refine .gone rfl ?_
      have hcleared : contains i g.remove.cleared = true := by
        rw [Ledger.remove, hfirst, if_pos rfl, contains_append, held, Bool.or_true]
      rw [hlooked, looks, hcleared, if_pos rfl]
    | taken held looks cleared first seen leaves =>
      refine .gone rfl ?_
      have hcleared : contains i g.remove.cleared = false := by
        rw [Ledger.remove, first, if_neg Bool.false_ne_true]
        exact cleared
      rw [hlooked, looks, hcleared, if_neg Bool.false_ne_true]
    | gone held places =>
      refine .gone rfl ?_
      have hcleared : contains i g.remove.cleared = contains i g.cleared := by
        rw [Ledger.remove]
        dsimp only
        split
        · rw [contains_append, held, Bool.or_false]
        · rfl
      rw [hlooked, hcleared]
      exact places
  · have hne : r.phase ≠ .removing p :=
      fun heq => hk (Phase.removing.inj (hphase.symm.trans heq))
    rw [after_resume_of_ne interval (by rw [hphase]; exact Phase.noConfusion) hne]
    cases h with
    | waiting held looks cleared awaits =>
      exact .waiting held looks cleared (Or.inl (awaits.resolve_right fun hpos => hpos.1))
    | taken held looks cleared first seen leaves =>
      obtain ⟨hp, hle⟩ := leaves.resolve_left hk
      exact .taken held looks cleared first seen (Or.inr (Walk.Reaches.of_erase hp hk hle))
    | gone held places => exact .gone held places

theorem Place.resume (hinv : Inv x p g r rows) (h : Place x p i g r.order r.phase) :
    Place x p i (g.after x p r (.resume interval)) (resume x r interval).1.order
      (resume x r interval).1.phase := by
  cases hphase : r.phase with
  | idle =>
    rw [resume_idle interval hphase,
      after_resume_of_ne interval (by rw [hphase]; exact Phase.noConfusion)
        (by rw [hphase]; exact Phase.noConfusion)]
    exact h
  | reading k =>
    rw [hphase] at h
    rw [resume_reading interval hphase,
      after_resume_of_ne interval (by rw [hphase]; exact Phase.noConfusion)
        (by rw [hphase]; exact Phase.noConfusion)]
    exact Place.reading (r := r) hinv h
  | looking k =>
    rw [hphase] at h
    obtain ⟨event, -, hr⟩ := hinv.resume_looking interval hphase
    rw [hr]
    exact h.looking interval hinv hphase
  | deleting k =>
    rw [hphase] at h
    rw [resume_deleting interval hphase,
      after_resume_of_ne interval (by rw [hphase]; exact Phase.noConfusion)
        (by rw [hphase]; exact Phase.noConfusion)]
    exact Place.deleting (r := r) hinv h
  | removing k =>
    rw [hphase] at h
    rw [hinv.resume_removing interval hphase]
    exact h.removing interval hphase

end Resume

theorem made_after (t : Tick) (h : ∀ e, t ≠ .kernel e) : (g.after x p r t).made = g.made := by
  cases t with
  | kernel e => exact absurd rfl (h e)
  | call strayFd =>
    unfold Ledger.after
    cases r.phase with
    | idle =>
      dsimp only
      split <;> rfl
    | reading k | looking k | deleting k | removing k => rfl
  | resume interval =>
    unfold Ledger.after
    cases r.phase with
    | idle | reading k | deleting k => rfl
    | looking k =>
      dsimp only
      split
      · split <;> rfl
      · rfl
    | removing k =>
      dsimp only
      split <;> rfl

theorem place {tr : List Tick} (hserved : ∀ t ∈ tr, t.Served)
    (hu : Throughout (fun pre t =>
      Unharmed x p i (ledger x p c pre) ((reader x c).exec pre) t) tr)
    (hi : i < (ledger x p c tr).made.length) :
    Place x p i (ledger x p c tr) ((reader x c).exec tr).order ((reader x c).exec tr).phase := by
  induction tr using List.reverseRecOn with
  | nil => cases hi
  | append_singleton pre t ih =>
    have hserved' : ∀ y ∈ pre, y.Served := fun y hy => hserved y (List.mem_append_left [t] hy)
    have hpre := ih hserved' hu.of_snoc
    have hinv := inv (x := x) (p := p) (c := c) hserved'
    have hlast := hserved t (List.mem_append_right pre (List.mem_singleton_self t))
    have hcond := hu.last
    rw [ledger_snoc] at hi
    rw [ledger_snoc, Machine.exec_snoc]
    cases t with
    | kernel e => exact Place.kernel hinv hlast hcond hpre hi
    | call strayFd =>
      rw [made_after _ fun e => Tick.noConfusion] at hi
      exact (hpre hi).call hinv strayFd
    | resume interval =>
      rw [made_after _ fun e => Tick.noConfusion] at hi
      exact (hpre hi).resume interval hinv

/-- While `print_resource` is not running, every charge is in exactly one printed row or still in
`total`. -/
def Conserved (x : Setup) (p : ProcId) (c : RscCtrl) (tr : List Tick) : Prop :=
  ((reader x c).exec tr).phase = .idle →
    ∃ (parts : List (List StartRsc)) (rest : List StartRsc),
      ((ledger x p c tr).made.map Prod.snd).Perm (parts.flatten ++ rest) ∧
      parts.map gathered = printed x p c tr ∧
      usage ((reader x c).exec tr).kernel p = gathered rest

theorem gathered_time_append (l l' : List StartRsc) :
    (gathered (l ++ l')).time = (gathered l).time + (gathered l').time := by
  simp only [gathered, List.map_append, List.sum_append]

theorem gathered_time_flatten (parts : List (List StartRsc)) :
    (gathered parts.flatten).time = ((parts.map gathered).map StartRsc.time).sum := by
  induction parts with
  | nil => rfl
  | cons l parts ih =>
    rw [List.flatten_cons, gathered_time_append, ih, List.map_cons, List.map_cons, List.sum_cons]

theorem Conserved.time {tr : List Tick} (h : Conserved x p c tr)
    (hidle : ((reader x c).exec tr).phase = .idle) :
    (amount (ledger x p c tr).made).time =
      ((printed x p c tr).map StartRsc.time).sum +
        (usage ((reader x c).exec tr).kernel p).time := by
  obtain ⟨parts, rest, hperm, hrows, husage⟩ := h hidle
  have hsum : (amount (ledger x p c tr).made).time = (gathered (parts.flatten ++ rest)).time :=
    (hperm.map StartRsc.time).sum_eq
  rw [hsum, gathered_time_append, gathered_time_flatten, hrows, husage]

section Runs

instance (t : Tick) : Decidable t.Served :=
  match t with
  | .kernel (.finishTaskSwitch ..) => inferInstanceAs (Decidable (_ = _))
  | .kernel (.rscCtrl _) | .kernel (.deleteTotal _) => isFalse id
  | .call _ | .resume _ => isTrue trivial

instance (phase : Phase) : Decidable (Late g phase) :=
  match phase with
  | .idle => isFalse id
  | .reading _ | .looking _ | .deleting _ | .removing _ => inferInstanceAs (Decidable (_ = _))

instance (k : ProcId) : Decidable (Displaces x p g r k) := by
  unfold Displaces
  split <;> infer_instance

instance (t : Tick) : Decidable (Unharmed x p i g r t) :=
  match t with
  | .kernel _ => Option.decidableForallMem _
  | .call _ | .resume _ => isTrue trivial

/-- Two page frames, no rounding, and one bucket for all tasks. -/
def desk : Setup where
  ignoreTgid := 1
  bucket _ := 0
  memtotal := 2
  percent a b := a ≤ b

/-- `n` map operations of `print_resource`. -/
def operations (n : Nat) : List Tick := List.replicate n (.resume 1000)

/-- The first call, with nothing to remove. -/
def started : List Tick := [.call true] ++ operations 1

end Runs

end CpuSubsystem.ResourceImage
