import Evolution.Point.Traversal
import Evolution.Proofs.Point.Edit

/-! Point numbers. A number picks the point at that place of the pre-order, which is the order of a walk,
and a place for it in the tree: its surroundings with a gap. Looking up, replacing and removing are
three ways to fill the gap, so what an edit does to the other points is read off the surroundings. -/

namespace Evolution

theorem Traversal.toList_eq_preorders (t : Traversal) : t.toList = Point.preorders t.pending := by
  induction t using Traversal.toList.induct with
  | case1 t done =>
    have none : t.pending = [] := by
      cases waiting : t.pending with
      | nil => rfl
      | cons p rest => simp [next?, waiting] at done
    rw [toList.eq_def, done, none]
    rfl
  | case2 t p after found ih =>
    rw [toList.eq_def, found]
    simp only [ih]
    unfold next? at found
    split at found
    · simp at found
    · next q rest waiting =>
      obtain ⟨rfl, rfl⟩ := Prod.mk.inj (Option.some.inj found)
      rw [waiting, Point.preorders, Point.preorder_eq_cons, Point.preorders_append]
      rfl

namespace Point

/-- A walk visits the points in pre-order. -/
theorem walk_eq_preorder (p : Point) : p.walk = p.preorder := by
  rw [walk, Traversal.toList_eq_preorders, preorders_singleton]

mutual

/-- The number of a point is its place in the pre-order. -/
theorem get?_eq_getElem? : ∀ (p : Point) (k : Nat), p.get? (k + 1) = p.preorder[k]?
  | p, 0 => by rw [preorder_eq_cons, get?, List.getElem?_cons_zero]
  | .block inner, k + 1 => getIn?_eq_getElem? inner k
  | .instruction _, _ + 1 => rfl
  | .reference _, _ + 1 => rfl
  | .literal _, _ + 1 => rfl

theorem getIn?_eq_getElem? : ∀ (ps : List Point) (k : Nat), getIn? ps (k + 1) = (preorders ps)[k]?
  | [], _ => rfl
  | p :: rest, k => by
    have length := length_preorder p
    rw [getIn?, preorders]
    split
    · rw [List.getElem?_append_left (by omega)]
      exact get?_eq_getElem? p k
    · obtain ⟨l, rfl⟩ : ∃ l, k = p.size + l := ⟨k - p.size, by omega⟩
      rw [List.getElem?_append_right (by omega), length, Nat.add_sub_cancel_left, Nat.add_assoc,
        Nat.add_sub_cancel_left]
      exact getIn?_eq_getElem? rest l

end

theorem get?_zero (p : Point) : p.get? 0 = none := by
  cases p <;> rfl

section append

variable (before ps : List Point) {i : Nat}

theorem replaceIn?_append (r : Point) (pos : 0 < i) :
    replaceIn? (before ++ ps) (sizes before + i) r = (replaceIn? ps i r).map (before ++ ·) := by
  induction before with
  | nil => simp [sizes]
  | cons p rest ih =>
    have beyond : ¬p.size + sizes rest + i ≤ p.size := by omega
    have left : p.size + sizes rest + i - p.size = sizes rest + i := by omega
    rw [sizes, List.cons_append, replaceIn?, if_neg beyond, left, ih, Option.map_map]
    rfl

theorem deleteIn?_append (pos : 0 < i) :
    deleteIn? (before ++ ps) (sizes before + i) = (deleteIn? ps i).map (before ++ ·) := by
  induction before with
  | nil => simp [sizes]
  | cons p rest ih =>
    have filled := p.size_pos
    have beyond : ¬p.size + sizes rest + i ≤ p.size := by omega
    have left : p.size + sizes rest + i - p.size = sizes rest + i := by omega
    rw [sizes, List.cons_append, deleteIn?, if_neg (by omega), if_neg beyond, left, ih,
      Option.map_map]
    rfl

end append

/-- A place in a sequence of trees: what stands around it, at the level of the place and of each block
that it lies in. -/
inductive Site where
  /-- Between points of the sequence. -/
  | here (before after : List Point)
  /-- Inside a block that stands between points of the sequence. -/
  | within (before : List Point) (site : Site) (after : List Point)

namespace Site

/-- The sequence with points put in the place. -/
def fill : Site → List Point → List Point
  | here before after, ps => before ++ (ps ++ after)
  | within before site after, ps => before ++ .block (site.fill ps) :: after

/-- How many points come before the place. -/
def offset : Site → Nat
  | here before _ => sizes before
  | within before site _ => sizes before + (site.offset + 1)

/-- The points before the place, in pre-order; those around it hold what it is filled with. -/
def lead : Site → List Point → List Point
  | here before _, _ => preorders before
  | within before site _, ps => preorders before ++ .block (site.fill ps) :: site.lead ps

/-- The points after the place, in pre-order. -/
def trail : Site → List Point
  | here _ after => preorders after
  | within _ site after => site.trail ++ preorders after

variable (s : Site) (ps : List Point)

theorem length_lead : (s.lead ps).length = s.offset := by
  induction s with
  | here before after => exact length_preorders before
  | within before site after ih =>
    rw [lead, offset, List.length_append, List.length_cons, ih, length_preorders]

theorem preorders_fill : preorders (s.fill ps) = s.lead ps ++ (preorders ps ++ s.trail) := by
  induction s with
  | here before after => rw [fill, lead, trail, preorders_append, preorders_append]
  | within before site after ih =>
    rw [fill, preorders_append, preorders, preorder, ih, lead, trail]
    simp only [List.append_assoc, List.cons_append]

theorem sizes_fill : sizes (s.fill ps) = s.offset + (sizes ps + s.trail.length) := by
  rw [← length_preorders, preorders_fill, List.length_append, List.length_append, length_lead,
    length_preorders]

/-- The same place with more points around it. -/
def between (before : List Point) (s : Site) (after : List Point) : Site :=
  match s with
  | here before' after' => here (before ++ before') (after' ++ after)
  | within before' site after' => within (before ++ before') site (after' ++ after)

theorem fill_between (before after : List Point) :
    (s.between before after).fill ps = before ++ (s.fill ps ++ after) := by
  cases s <;> simp [between, fill]

theorem offset_between (before after : List Point) :
    (s.between before after).offset = sizes before + s.offset := by
  cases s <;> simp [between, offset, sizes_append, Nat.add_assoc]

end Site

mutual

/-- A point that is looked up has a place in the tree. -/
theorem exists_fill_of_get? : ∀ {p u : Point} {i : Nat}, p.get? i = some u →
    ∃ s : Site, [p] = s.fill [u] ∧ i = s.offset + 1
  | p, u, 0, h => by simp [get?_zero] at h
  | p, u, 1, h => by
    obtain rfl : p = u := by simpa [get?] using h
    exact ⟨.here [] [], rfl, rfl⟩
  | .block inner, u, i + 2, h => by
    have found : getIn? inner (i + 1) = some u := h
    obtain ⟨s, rfl, number⟩ := exists_fill_of_getIn? found
    refine ⟨.within [] s [], rfl, ?_⟩
    simp only [Site.offset, sizes]
    omega

theorem exists_fill_of_getIn? : ∀ {ps : List Point} {u : Point} {i : Nat}, getIn? ps i = some u →
    ∃ s : Site, ps = s.fill [u] ∧ i = s.offset + 1
  | p :: rest, u, i, h => by
    rw [getIn?] at h
    split at h
    · obtain ⟨s, same, rfl⟩ := exists_fill_of_get? h
      refine ⟨s.between [] rest, ?_, ?_⟩
      · rw [Site.fill_between, ← same]
        rfl
      · rw [Site.offset_between, sizes, Nat.zero_add]
    · obtain ⟨s, same, number⟩ := exists_fill_of_getIn? h
      refine ⟨s.between [p] [], ?_, ?_⟩
      · rw [Site.fill_between, ← same, List.append_nil]
        rfl
      · rw [Site.offset_between, sizes, sizes]
        omega

end

namespace Site

variable (s : Site)

theorem replaceIn?_fill (u r : Point) :
    replaceIn? (s.fill [u]) (s.offset + 1) r = some (s.fill [r]) := by
  induction s with
  | here before after =>
    have filled := u.size_pos
    rw [fill, offset, replaceIn?_append before _ r Nat.one_pos, List.cons_append, replaceIn?,
      if_pos (Nat.succ_le_of_lt filled), replace?]
    rfl
  | within before site after ih =>
    have inside : site.offset + 2 ≤ (Point.block (site.fill [u])).size := by
      have filled := u.size_pos
      rw [size, sizes_fill, sizes_singleton]
      omega
    rw [fill, offset, Nat.add_assoc, replaceIn?_append before _ r (by omega), replaceIn?,
      if_pos inside, replace?, ih]
    rfl

theorem deleteIn?_fill (u : Point) : deleteIn? (s.fill [u]) (s.offset + 1) = some (s.fill []) := by
  induction s with
  | here before after =>
    rw [fill, offset, deleteIn?_append before _ Nat.one_pos, List.cons_append, deleteIn?, if_pos rfl]
    rfl
  | within before site after ih =>
    have inside : site.offset + 2 ≤ (Point.block (site.fill [u])).size := by
      have filled := u.size_pos
      rw [size, sizes_fill, sizes_singleton]
      omega
    rw [fill, offset, Nat.add_assoc, deleteIn?_append before _ (by omega), deleteIn?,
      if_neg (by omega), if_pos inside, delete?, ih]
    rfl

section tree

variable {s} {p u : Point} (h : [p] = s.fill [u])

include h

theorem offset_succ_le_size : s.offset + 1 ≤ p.size := by
  have size := congrArg sizes h
  have filled := u.size_pos
  rw [sizes_fill, sizes_singleton, sizes_singleton] at size
  omega

/-- The point in a place of a tree has the number after all points before the place. -/
theorem get?_of_fill : p.get? (s.offset + 1) = some u := by
  have order := s.preorders_fill [u]
  rw [← h, preorders_singleton, preorders_singleton, preorder_eq_cons u] at order
  rw [get?_eq_getElem?, order, ← s.length_lead [u], List.getElem?_append_right (Nat.le_refl _),
    Nat.sub_self]
  rfl

theorem map_replace?_of_fill (r : Point) :
    (p.replace? (s.offset + 1) r).map ([·]) = some (s.fill [r]) := by
  have replaced := s.replaceIn?_fill u r
  rwa [← h, replaceIn?, if_pos (offset_succ_le_size h)] at replaced

/-- The place of a point that is not the root. -/
theorem map_delete?_of_fill (inner : 0 < s.offset) :
    (p.delete? (s.offset + 1)).map ([·]) = some (s.fill []) := by
  have deleted := s.deleteIn?_fill u
  rwa [← h, deleteIn?, if_neg (by omega), if_pos (offset_succ_le_size h)] at deleted

end tree

end Site

/-- A point lies in the sequence with all its contents. -/
theorem exists_getElem?_preorders {ps : List Point} {k : Nat} (below : k < sizes ps) :
    ∃ u : Point, (preorders ps)[k]? = some u ∧ k + u.size ≤ sizes ps := by
  have below : k < (preorders ps).length := by rwa [length_preorders]
  obtain ⟨u, found⟩ : ∃ u, (preorders ps)[k]? = some u := ⟨_, List.getElem?_eq_getElem below⟩
  obtain ⟨s, rfl, number⟩ := exists_fill_of_getIn? ((getIn?_eq_getElem? ps k).trans found)
  refine ⟨u, found, ?_⟩
  rw [Site.sizes_fill, sizes_singleton]
  omega

/-- A point before the place either lies clear of it, or is a block around it. -/
theorem Site.getElem?_lead (s : Site) {k : Nat} (h : k < s.offset) :
    (∃ u : Point, k + u.size ≤ s.offset ∧ ∀ ps, (s.lead ps)[k]? = some u) ∨
      ∃ inner : Site, s.offset = k + 1 + inner.offset ∧
        ∀ ps, (s.lead ps)[k]? = some (.block (inner.fill ps)) := by
  induction s generalizing k with
  | here before after =>
    obtain ⟨u, found, inside⟩ := exists_getElem?_preorders h
    exact .inl ⟨u, inside, fun _ => found⟩
  | within before site after ih =>
    rw [offset] at h ⊢
    have length := length_preorders before
    rcases Nat.lt_trichotomy k (sizes before) with below | rfl | beyond
    · obtain ⟨u, found, inside⟩ := exists_getElem?_preorders below
      refine .inl ⟨u, by omega, fun ps => ?_⟩
      rw [lead, List.getElem?_append_left (by omega), found]
    · refine .inr ⟨site, by omega, fun ps => ?_⟩
      rw [lead, List.getElem?_append_right (by omega), length, Nat.sub_self,
        List.getElem?_cons_zero]
    · obtain ⟨l, rfl⟩ : ∃ l, k = sizes before + (l + 1) := ⟨k - sizes before - 1, by omega⟩
      have shifted : ∀ ps, ((Site.within before site after).lead ps)[sizes before + (l + 1)]? =
          (site.lead ps)[l]? := by
        intro ps
        rw [lead, List.getElem?_append_right (by omega), length, Nat.add_sub_cancel_left,
          List.getElem?_cons_succ]
      simp only [shifted]
      have below : l < site.offset := by omega
      rcases ih below with ⟨u, clear, found⟩ | ⟨inner, around, found⟩
      · exact .inl ⟨u, by omega, found⟩
      · exact .inr ⟨inner, by omega, found⟩

end Point

end Evolution
