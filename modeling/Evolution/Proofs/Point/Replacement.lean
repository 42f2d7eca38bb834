import Evolution.Proofs.Point.Site

/-! What becomes of a tree when one of its points gives way to others. The points before the place keep
their numbers, those behind it move by the difference in size, and a block around the place changes in
the same way at the number that the place has within it. Replacing a point is the case of one new point,
taking it out that of none. -/

namespace Evolution.Point

/-- `q` is the tree `p` with other points in the place of its point `u`, which has the number `i`. -/
def Refilled (p : Point) (i : Nat) (u : Point) (ps : List Point) (q : Point) : Prop :=
  ∃ s : Site, [p] = s.fill [u] ∧ i = s.offset + 1 ∧ [q] = s.fill ps

theorem refilled_of_get? {p u : Point} {i : Nat} (found : p.get? i = some u) :
    p.Refilled i u [u] p := by
  obtain ⟨s, same, number⟩ := exists_fill_of_get? found
  exact ⟨s, same, number, same⟩

theorem exists_replace? {p u : Point} {i : Nat} (found : p.get? i = some u) (r : Point) :
    ∃ q, p.replace? i r = some q ∧ p.Refilled i u [r] q := by
  obtain ⟨s, same, rfl⟩ := exists_fill_of_get? found
  obtain ⟨q, replaced, filled⟩ := Option.map_eq_some_iff.mp (Site.map_replace?_of_fill same r)
  exact ⟨q, replaced, s, same, rfl, filled⟩

theorem exists_delete? {p u : Point} {i : Nat} (found : p.get? i = some u) (inner : 1 < i) :
    ∃ q, p.delete? i = some q ∧ p.Refilled i u [] q := by
  obtain ⟨s, same, rfl⟩ := exists_fill_of_get? found
  have inner : 0 < s.offset := by omega
  obtain ⟨q, deleted, filled⟩ := Option.map_eq_some_iff.mp (Site.map_delete?_of_fill same inner)
  exact ⟨q, deleted, s, same, rfl, filled⟩

/-- The footnotes of points without those of the points inside them. -/
def ownNotes (points : List Point) : List Footnote :=
  points.filterMap fun
    | .literal note => some note
    | _ => none

theorem ownNotes_append (ps qs : List Point) : ownNotes (ps ++ qs) = ownNotes ps ++ ownNotes qs :=
  List.filterMap_append

theorem ownNotes_preorders (ps : List Point) : ownNotes (preorders ps) = ps.flatMap footnotes := by
  rw [ownNotes, preorders_eq_flatMap, List.filterMap_flatMap]
  rfl

/-- Blocks around a place have no footnotes of their own. -/
theorem Site.ownNotes_lead (s : Site) (ps qs : List Point) :
    ownNotes (s.lead ps) = ownNotes (s.lead qs) := by
  induction s with
  | here before after => rfl
  | within before site after ih =>
    rw [lead, lead, ownNotes_append, ownNotes_append]
    exact congrArg (ownNotes (preorders before) ++ ·) ih

/-- The footnotes of the points before the one with the number `i`. -/
def notesBefore (p : Point) (i : Nat) : List Footnote := ownNotes (p.preorder.take (i - 1))

/-- The footnotes of the points from the number `i` on. -/
def notesFrom (p : Point) (i : Nat) : List Footnote := ownNotes (p.preorder.drop (i - 1))

/-- The point with the number `i` is one of those inside the point with the number `j`. -/
def Encloses (p : Point) (j i : Nat) : Prop := ∃ v, p.get? j = some v ∧ j < i ∧ i < j + v.size

namespace Refilled

variable {p q u : Point} {ps : List Point} {i : Nat}

theorem get? (h : p.Refilled i u ps q) : p.get? i = some u := by
  obtain ⟨s, same, rfl, -⟩ := h
  exact Site.get?_of_fill same

theorem replace? {r : Point} (h : p.Refilled i u [r] q) : p.replace? i r = some q := by
  obtain ⟨s, same, rfl, filled⟩ := h
  have replaced := Site.map_replace?_of_fill same r
  rw [← filled] at replaced
  simpa using replaced

theorem new {r : Point} (h : p.Refilled i u [r] q) : q.Refilled i r [r] q := by
  obtain ⟨s, -, number, filled⟩ := h
  exact ⟨s, filled, number, filled⟩

/-- Nothing is left of the new point when it is replaced in turn. -/
theorem replace?_again {r : Point} (h : p.Refilled i u [r] q) (r' : Point) :
    q.replace? i r' = p.replace? i r' := by
  obtain ⟨s, same, rfl, filled⟩ := h
  obtain ⟨q', replaced, one⟩ := Option.map_eq_some_iff.mp (Site.map_replace?_of_fill same r')
  obtain ⟨q'', again, two⟩ := Option.map_eq_some_iff.mp (Site.map_replace?_of_fill filled r')
  rw [replaced, again, (List.cons.inj (two.trans one.symm)).1]

theorem delete? (h : p.Refilled i u [] q) : p.delete? i = some q := by
  obtain ⟨s, same, rfl, filled⟩ := h
  have inner : 0 < s.offset := by
    cases s with
    | here before after =>
      have one := congrArg List.length same
      have one' := congrArg List.length filled
      simp only [Site.fill, List.length_append, List.length_singleton, List.length_nil] at one one'
      omega
    | within before site after =>
      rw [Site.offset]
      omega
  have deleted := Site.map_delete?_of_fill same inner
  rw [← filled] at deleted
  simpa using deleted

/-- The pre-order before and after, cut at the place. -/
theorem exists_preorder (h : p.Refilled i u ps q) : ∃ s : Site, i = s.offset + 1 ∧
    p.preorder = s.lead [u] ++ (u.preorder ++ s.trail) ∧
      q.preorder = s.lead ps ++ (preorders ps ++ s.trail) := by
  obtain ⟨s, same, number, filled⟩ := h
  have before := s.preorders_fill [u]
  have after := s.preorders_fill ps
  rw [← same] at before
  rw [← filled] at after
  simp only [preorders_singleton] at before after
  exact ⟨s, number, before, after⟩

theorem size_le (h : p.Refilled i u ps q) : u.size ≤ p.size := by
  obtain ⟨s, -, before, -⟩ := h.exists_preorder
  have length := congrArg List.length before
  simp only [List.length_append, length_preorder] at length
  omega

theorem size_eq (h : p.Refilled i u ps q) : q.size + u.size = p.size + sizes ps := by
  obtain ⟨s, -, before, after⟩ := h.exists_preorder
  have first := congrArg List.length before
  have second := congrArg List.length after
  simp only [List.length_append, Site.length_lead, length_preorder, length_preorders] at first second
  omega

theorem get?_inside (h : p.Refilled i u ps q) {k : Nat} (within : k < sizes ps) :
    q.get? (i + k) = (preorders ps)[k]? := by
  obtain ⟨s, rfl, -, after⟩ := h.exists_preorder
  have lead := s.length_lead ps
  have length := length_preorders ps
  rw [Nat.add_right_comm, get?_eq_getElem?, after, List.getElem?_append_right (by omega), lead,
    Nat.add_sub_cancel_left, List.getElem?_append_left (by omega)]

theorem get?_behind (h : p.Refilled i u ps q) (k : Nat) :
    q.get? (i + sizes ps + k) = p.get? (i + u.size + k) := by
  obtain ⟨s, rfl, before, after⟩ := h.exists_preorder
  have behind : ∀ (lead inside : List Point) (n : Nat), lead.length = s.offset →
      inside.length = n → (lead ++ (inside ++ s.trail))[s.offset + n + k]? = s.trail[k]? := by
    intro lead inside n first second
    rw [List.getElem?_append_right (by omega), List.getElem?_append_right (by omega)]
    congr 1
    omega
  have number : ∀ n, s.offset + 1 + n + k = s.offset + n + k + 1 := by omega
  rw [number, number, get?_eq_getElem?, get?_eq_getElem?, before, after,
    behind _ _ _ (s.length_lead ps) (length_preorders ps),
    behind _ _ _ (s.length_lead [u]) (length_preorder u)]

/-- A point with a smaller number lies clear of the place and stays, or it is a block around the place
and is refilled with it. -/
theorem get?_before (h : p.Refilled i u ps q) {v : Point} {j : Nat} (found : p.get? j = some v)
    (below : j < i) : j + v.size ≤ i ∧ q.get? j = some v ∨
      i < j + v.size ∧ ∃ w, q.get? j = some w ∧ v.Refilled (i - j + 1) u ps w := by
  obtain ⟨s, rfl, before, after⟩ := h.exists_preorder
  obtain ⟨k, rfl⟩ : ∃ k, j = k + 1 := by
    cases j with
    | zero => simp [get?_zero] at found
    | succ k => exact ⟨k, rfl⟩
  have here : k < s.offset := by omega
  have lead : ∀ ps, k < (s.lead ps).length := fun ps => by rwa [s.length_lead]
  rw [get?_eq_getElem?, before, List.getElem?_append_left (lead _)] at found
  rw [get?_eq_getElem?, after, List.getElem?_append_left (lead _)]
  rcases s.getElem?_lead here with ⟨w, clear, same⟩ | ⟨inner, around, same⟩
  · obtain rfl := Option.some.inj ((same [u]).symm.trans found)
    exact .inl ⟨by omega, same ps⟩
  · obtain rfl := Option.some.inj ((same [u]).symm.trans found)
    have place : [block (inner.fill [u])] = (Site.within [] inner []).fill [u] := rfl
    have number : s.offset + 1 - (k + 1) + 1 = (Site.within [] inner []).offset + 1 := by
      simp only [Site.offset, sizes]
      omega
    have inside := Site.offset_succ_le_size place
    exact .inr ⟨by omega, _, same ps, _, place, number, rfl⟩

theorem get?_of_not_encloses (h : p.Refilled i u ps q) {j : Nat} (below : j < i)
    (clear : ¬p.Encloses j i) : q.get? j = p.get? j := by
  cases j with
  | zero => rw [get?_zero, get?_zero]
  | succ k =>
    have range := isSome_get?_iff.mp (Option.isSome_iff_exists.mpr ⟨u, h.get?⟩)
    have there : (p.get? (k + 1)).isSome = true := isSome_get?_iff.mpr ⟨k.succ_pos, by omega⟩
    obtain ⟨v, found⟩ := Option.isSome_iff_exists.mp there
    rcases h.get?_before found below with ⟨-, same⟩ | ⟨around, -⟩
    · rw [same, found]
    · exact absurd ⟨v, found, below, around⟩ clear

theorem exists_of_encloses (h : p.Refilled i u ps q) {v : Point} {j : Nat} (around : p.Encloses j i)
    (found : p.get? j = some v) : ∃ w, q.get? j = some w ∧ v.Refilled (i - j + 1) u ps w := by
  obtain ⟨v', same, below, within⟩ := around
  obtain rfl := Option.some.inj (found.symm.trans same)
  rcases h.get?_before found below with ⟨clear, -⟩ | ⟨-, changed⟩
  · omega
  · exact changed

/-- Only the footnotes of the point itself give way. -/
theorem footnotes (h : p.Refilled i u ps q) :
    p.footnotes = p.notesBefore i ++ (u.footnotes ++ p.notesFrom (i + u.size)) ∧
      q.footnotes = p.notesBefore i ++ (ps.flatMap Point.footnotes ++ p.notesFrom (i + u.size)) := by
  obtain ⟨s, rfl, before, after⟩ := h.exists_preorder
  have lead : p.preorder.take s.offset = s.lead [u] := by
    rw [before, ← s.length_lead [u], List.take_left]
  have trail : p.preorder.drop (s.offset + u.size) = s.trail := by
    rw [before, ← List.append_assoc, ← s.length_lead [u], ← length_preorder u, ← List.length_append,
      List.drop_left]
  have number : s.offset + 1 + u.size - 1 = s.offset + u.size := by omega
  have whole : ∀ p : Point, p.footnotes = ownNotes p.preorder := fun _ => rfl
  rw [notesBefore, notesFrom, number, Nat.add_sub_cancel, lead, trail, whole p, whole q, whole u,
    before, after, ← ownNotes_preorders]
  simp only [ownNotes_append, true_and]
  rw [s.ownNotes_lead ps [u]]

end Refilled

/-- What the numbers of the points of a tree say. -/
structure Numbered (p : Point) : Prop where
  /-- The walk is the pre-order. -/
  order : p.walk = p.preorder
  /-- It visits as many points as there are. -/
  count : p.walk.length = p.size
  /-- A number is a place in the walk. -/
  place : ∀ i, 1 ≤ i → p.get? i = p.walk[i - 1]?
  /-- There is no point with another number. -/
  outside : ∀ i, p.get? i = none ↔ ¬(1 ≤ i ∧ i ≤ p.size)
  /-- The points inside a point have the numbers that follow its own. -/
  inside : ∀ j v, p.get? j = some v → ∀ k, 1 ≤ k → k ≤ v.size → v.get? k = p.get? (j + k - 1)

/-- The tree `q` has the tree `r` where the tree `p` has its point `u` with the number `i`; nothing else
has changed. -/
structure Replacement (p : Point) (i : Nat) (u r q : Point) : Prop where
  size : u.size ≤ p.size ∧ q.size = p.size - u.size + r.size
  inside : ∀ j, i ≤ j → j < i + r.size → q.get? j = r.get? (j - i + 1)
  behind : ∀ j, i + r.size ≤ j → q.get? j = p.get? (j - r.size + u.size)
  before : ∀ j, j < i → ¬p.Encloses j i → q.get? j = p.get? j
  /-- In a point around the place the same replacement is made. -/
  around : ∀ j v, p.Encloses j i → p.get? j = some v →
    ∃ w, v.replace? (i - j + 1) r = some w ∧ q.get? j = some w
  /-- The new point is found under the number. -/
  found : q.get? i = some r
  /-- Nothing is left of it when it is replaced in turn. -/
  again : ∀ r', q.replace? i r' = p.replace? i r'

theorem numbered (p : Point) : p.Numbered := by
  refine ⟨p.walk_eq_preorder, ?_, fun i pos => ?_, fun i => ?_, fun j v found k pos within => ?_⟩
  · rw [walk_eq_preorder, length_preorder]
  · obtain ⟨k, rfl⟩ : ∃ k, i = k + 1 := ⟨i - 1, by omega⟩
    rw [get?_eq_getElem?, walk_eq_preorder, Nat.add_sub_cancel]
  · rw [← Option.not_isSome_iff_eq_none, isSome_get?_iff]
    rfl
  · obtain ⟨l, rfl⟩ : ∃ l, k = l + 1 := ⟨k - 1, by omega⟩
    have below : l < sizes [v] := within
    have same := (refilled_of_get? found).get?_inside below
    rw [preorders_singleton, ← get?_eq_getElem?] at same
    exact same.symm

theorem Refilled.replacement {p q u r : Point} {i : Nat} (h : p.Refilled i u [r] q) :
    p.Replacement i u r q := by
  have inside : ∀ k, k < r.size → q.get? (i + k) = r.get? (k + 1) := by
    intro k within
    rw [h.get?_inside within, preorders_singleton, get?_eq_getElem?]
  refine ⟨?_, fun j above within => ?_, fun j above => ?_, fun j => h.get?_of_not_encloses,
    fun j v around found => ?_, h.new.get?, h.replace?_again⟩
  · have sizes := h.size_eq
    rw [sizes_singleton] at sizes
    have within := h.size_le
    omega
  · rw [← inside (j - i) (by omega), Nat.add_sub_cancel' above]
  · obtain ⟨k, rfl⟩ : ∃ k, j = i + r.size + k := ⟨j - (i + r.size), by omega⟩
    have number : i + r.size + k - r.size + u.size = i + u.size + k := by omega
    rw [number]
    exact h.get?_behind k
  · obtain ⟨w, new, refilled⟩ := h.exists_of_encloses around found
    exact ⟨w, refilled.replace?, new⟩

/-- Replacing is possible at the numbers of the points and only there; it changes the one subtree and
nothing else, and a point in its own place makes no difference. -/
theorem replacement_of_replace? (p : Point) (i : Nat) (r : Point) :
    p.Numbered ∧ ((p.replace? i r).isSome = true ↔ 1 ≤ i ∧ i ≤ p.size) ∧
      (1 ≤ i → i ≤ p.size → ∃ u q, p.get? i = some u ∧ p.replace? i r = some q ∧
        p.Replacement i u r q ∧ p.replace? i u = some p) := by
  refine ⟨p.numbered, (isSome_replace? r p i) ▸ isSome_get?_iff, fun pos within => ?_⟩
  obtain ⟨u, found⟩ := Option.isSome_iff_exists.mp (isSome_get?_iff.mpr ⟨pos, within⟩)
  obtain ⟨q, replaced, refilled⟩ := exists_replace? found r
  exact ⟨u, q, found, replaced, refilled.replacement, (refilled_of_get? found).replace?⟩

/-- A block with contents in the place of an empty one, inside another block with points behind both. -/
theorem replacement_of_replace?_inner_block :
    let inner := Point.block [.reference "x", .emptyBlock]
    let p := Point.block [.instruction "a", inner, .literal ⟨"int", "3"⟩]
    let r := Point.block [.instruction "b", .instruction "c"]
    let q := Point.block [.instruction "a", .block [.reference "x", r], .literal ⟨"int", "3"⟩]
    p.get? 5 = some .emptyBlock ∧ p.replace? 5 r = some q ∧ p.Encloses 3 5 ∧ ¬p.Encloses 4 5 ∧
      p.Replacement 5 .emptyBlock r q ∧ p.replace? 5 .emptyBlock = some p := by
  intro inner p r q
  have around : p.Encloses 3 5 := ⟨inner, rfl, by decide, by decide⟩
  have clear : ¬p.Encloses 4 5 := by
    rintro ⟨v, found, -, within⟩
    obtain rfl := Option.some.inj found
    exact absurd within (by decide)
  have found : p.get? 5 = some .emptyBlock := rfl
  have replaced : p.replace? 5 r = some q := rfl
  obtain ⟨-, -, law⟩ := replacement_of_replace? p 5 r
  obtain ⟨u', q', found', replaced', replacement⟩ := law (by decide) (by decide)
  obtain rfl : Point.emptyBlock = u' := Option.some.inj (found.symm.trans found')
  obtain rfl : q = q' := Option.some.inj (replaced.symm.trans replaced')
  exact ⟨found, replaced, around, clear, replacement⟩

end Evolution.Point
