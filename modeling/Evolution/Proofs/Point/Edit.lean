import Evolution.Point.Edit
import Evolution.Proofs.Point.Tree

/-! Where the points of an edited tree come from. A point that is looked up brings only points of the
tree; an edit adds none of its own, apart from the blocks around the edited place. It is possible at
the numbers that the tree has. -/

namespace Evolution.Point

theorem exists_get?_of_getIn? {ps : List Point} {q : Point} {i : Nat} (h : getIn? ps i = some q) :
    ∃ p ∈ ps, ∃ j, p.get? j = some q := by
  induction ps generalizing i with
  | nil => simp [getIn?] at h
  | cons p rest ih =>
    rw [getIn?] at h
    split at h
    · exact ⟨p, by simp, i, h⟩
    · obtain ⟨p', member, found⟩ := ih h
      exact ⟨p', List.mem_cons_of_mem p member, found⟩

theorem get?_eq_some {p q : Point} {i : Nat} (h : p.get? i = some q) :
    q = p ∨ ∃ inside ∈ p.contents, ∃ j, inside.get? j = some q := by
  unfold get? at h
  split at h
  · exact .inl (Option.some.inj h).symm
  · exact .inr (exists_get?_of_getIn? h)
  · simp at h

theorem preorder_subset_of_get? {p q : Point} {i : Nat} (h : p.get? i = some q) :
    q.preorder ⊆ p.preorder := by
  induction p using inductContents generalizing i with
  | step p ih =>
    rcases get?_eq_some h with rfl | ⟨inside, member, j, found⟩
    · exact fun _ => id
    · intro r hr
      exact mem_preorder.mpr (.inr ⟨inside, member, ih inside member found hr⟩)

/-- One of the points of a sequence with another in its place. -/
def Exchanged (p p' : Point) (ps qs : List Point) : Prop :=
  ∃ before after, ps = before ++ p :: after ∧ qs = before ++ p' :: after

theorem Exchanged.cons {p p' : Point} {ps qs : List Point} (h : Exchanged p p' ps qs) (first : Point) :
    Exchanged p p' (first :: ps) (first :: qs) := by
  obtain ⟨before, after, rfl, rfl⟩ := h
  exact ⟨first :: before, after, rfl, rfl⟩

theorem exchanged_of_replaceIn? {ps qs : List Point} {r : Point} {i : Nat}
    (h : replaceIn? ps i r = some qs) :
    ∃ p p' j, p.replace? j r = some p' ∧ Exchanged p p' ps qs := by
  induction ps generalizing qs i with
  | nil => simp [replaceIn?] at h
  | cons p rest ih =>
    rw [replaceIn?] at h
    split at h
    · obtain ⟨p', replaced, rfl⟩ := Option.map_eq_some_iff.mp h
      exact ⟨p, p', i, replaced, [], rest, rfl, rfl⟩
    · obtain ⟨others, replaced, rfl⟩ := Option.map_eq_some_iff.mp h
      obtain ⟨q, q', j, here, exchanged⟩ := ih replaced
      exact ⟨q, q', j, here, exchanged.cons p⟩

theorem removed_of_deleteIn? {ps qs : List Point} {i : Nat} (h : deleteIn? ps i = some qs) :
    qs.Sublist ps ∨ ∃ p p' j, p.delete? j = some p' ∧ Exchanged p p' ps qs := by
  induction ps generalizing qs i with
  | nil => simp [deleteIn?] at h
  | cons p rest ih =>
    rw [deleteIn?] at h
    split at h
    · obtain rfl := Option.some.inj h
      exact .inl (List.sublist_cons_self p rest)
    · split at h
      · obtain ⟨p', deleted, rfl⟩ := Option.map_eq_some_iff.mp h
        exact .inr ⟨p, p', i, deleted, [], rest, rfl, rfl⟩
      · obtain ⟨others, deleted, rfl⟩ := Option.map_eq_some_iff.mp h
        rcases ih deleted with shorter | ⟨q, q', j, here, exchanged⟩
        · exact .inl (shorter.cons_cons p)
        · exact .inr ⟨q, q', j, here, exchanged.cons p⟩

theorem replace?_eq_some {p p' r : Point} {i : Nat} (h : p.replace? i r = some p') :
    p' = r ∨ ∃ inner inner', p = .block inner ∧ p' = .block inner' ∧
      ∃ j, replaceIn? inner j r = some inner' := by
  unfold replace? at h
  split at h
  · exact .inl (Option.some.inj h).symm
  · obtain ⟨inner', replaced, rfl⟩ := Option.map_eq_some_iff.mp h
    exact .inr ⟨_, inner', rfl, rfl, _, replaced⟩
  · simp at h

theorem delete?_eq_some {p p' : Point} {i : Nat} (h : p.delete? i = some p') :
    ∃ inner inner', p = .block inner ∧ p' = .block inner' ∧ ∃ j, deleteIn? inner j = some inner' := by
  unfold delete? at h
  split at h
  · obtain ⟨inner', deleted, rfl⟩ := Option.map_eq_some_iff.mp h
    exact ⟨_, inner', rfl, rfl, _, deleted⟩
  · simp at h

variable {good : Point → Prop}

theorem forall_mem_of_exchanged {p p' : Point} {ps qs : List Point} (h : Exchanged p p' ps qs)
    (all : ∀ q ∈ ps, good q) (new : good p → good p') : ∀ q ∈ qs, good q := by
  obtain ⟨before, after, rfl, rfl⟩ := h
  intro q member
  rcases List.mem_append.mp member with member | member
  · exact all q (List.mem_append_left _ member)
  · rcases List.mem_cons.mp member with rfl | member
    · exact new (all p (by simp))
    · exact all q (by simp [member])

/-- What a block has if and only if its contents have it stays with a tree when a point that has it
replaces one of its points. -/
theorem forall_of_replace? (block : ∀ inner, good (.block inner) ↔ ∀ p ∈ inner, good p)
    {p p' r : Point} {i : Nat} (h : p.replace? i r = some p') (old : good p) (new : good r) :
    good p' := by
  induction p generalizing p' i with
  | block inner ih =>
    rcases replace?_eq_some h with rfl | ⟨_, inner', ⟨⟩, rfl, j, replaced⟩
    · exact new
    · obtain ⟨q, q', k, here, exchanged⟩ := exchanged_of_replaceIn? replaced
      have member : q ∈ inner := by
        obtain ⟨before, after, rfl, _⟩ := exchanged
        simp
      exact (block inner').mpr
        (forall_mem_of_exchanged exchanged ((block inner).mp old) (ih q member here))
  | instruction _ =>
    rcases replace?_eq_some h with rfl | ⟨_, _, ⟨⟩, _⟩
    exact new
  | reference _ =>
    rcases replace?_eq_some h with rfl | ⟨_, _, ⟨⟩, _⟩
    exact new
  | literal _ =>
    rcases replace?_eq_some h with rfl | ⟨_, _, ⟨⟩, _⟩
    exact new

/-- It also stays when a point is taken out. -/
theorem forall_of_delete? (block : ∀ inner, good (.block inner) ↔ ∀ p ∈ inner, good p)
    {p p' : Point} {i : Nat} (h : p.delete? i = some p') (old : good p) : good p' := by
  induction p generalizing p' i with
  | block inner ih =>
    obtain ⟨_, inner', ⟨⟩, rfl, j, deleted⟩ := delete?_eq_some h
    rw [block] at old ⊢
    rcases removed_of_deleteIn? deleted with shorter | ⟨q, q', k, here, exchanged⟩
    · exact fun q hq => old q (shorter.subset hq)
    · have member : q ∈ inner := by
        obtain ⟨before, after, rfl, _⟩ := exchanged
        simp
      exact forall_mem_of_exchanged exchanged old (ih q member here)
  | instruction _ => simp [delete?] at h
  | reference _ => simp [delete?] at h
  | literal _ => simp [delete?] at h

mutual

/-- A tree has the points with the numbers up to its size. -/
theorem isSome_get?_iff : ∀ {p : Point} {i : Nat}, (p.get? i).isSome = true ↔ 0 < i ∧ i ≤ p.size
  | p, 0 => by cases p <;> simp [get?]
  | p, 1 => by
    have pos := p.size_pos
    simp only [get?, Option.isSome_some, true_iff]
    omega
  | .block inner, i + 2 => by
    rw [get?, isSome_getIn?_iff, size]
    omega
  | .instruction _, i + 2 => by simp [get?, size]
  | .reference _, i + 2 => by simp [get?, size]
  | .literal _, i + 2 => by simp [get?, size]

theorem isSome_getIn?_iff : ∀ {ps : List Point} {i : Nat},
    (getIn? ps i).isSome = true ↔ 0 < i ∧ i ≤ sizes ps
  | [], i => by
    simp only [getIn?, Option.isSome_none, Bool.false_eq_true, sizes, false_iff]
    omega
  | p :: rest, i => by
    rw [getIn?, sizes]
    split
    · rw [isSome_get?_iff]
      omega
    · rw [isSome_getIn?_iff]
      omega

end

mutual

theorem isSome_replace? (q : Point) : ∀ (p : Point) (i : Nat),
    (p.replace? i q).isSome = (p.get? i).isSome
  | p, 0 => by cases p <;> rfl
  | p, 1 => by simp [replace?, get?]
  | .block inner, i + 2 => by rw [replace?, get?, Option.isSome_map, isSome_replaceIn? q inner (i + 1)]
  | .instruction _, i + 2 => rfl
  | .reference _, i + 2 => rfl
  | .literal _, i + 2 => rfl

theorem isSome_replaceIn? (q : Point) : ∀ (ps : List Point) (i : Nat),
    (replaceIn? ps i q).isSome = (getIn? ps i).isSome
  | [], i => rfl
  | p :: rest, i => by
    rw [replaceIn?, getIn?]
    split
    · rw [Option.isSome_map, isSome_replace? q p i]
    · rw [Option.isSome_map, isSome_replaceIn? q rest (i - p.size)]

end

mutual

/-- All points but the root can be taken out. -/
theorem isSome_delete?_iff : ∀ {p : Point} {i : Nat}, (p.delete? i).isSome = true ↔ 1 < i ∧ i ≤ p.size
  | p, 0 => by cases p <;> simp [delete?]
  | p, 1 => by cases p <;> simp [delete?]
  | .block inner, i + 2 => by
    rw [delete?, Option.isSome_map, isSome_deleteIn?_iff, size]
    omega
  | .instruction _, i + 2 => by simp [delete?, size]
  | .reference _, i + 2 => by simp [delete?, size]
  | .literal _, i + 2 => by simp [delete?, size]

theorem isSome_deleteIn?_iff : ∀ {ps : List Point} {i : Nat},
    (deleteIn? ps i).isSome = true ↔ 0 < i ∧ i ≤ sizes ps
  | [], i => by
    simp only [deleteIn?, Option.isSome_none, Bool.false_eq_true, sizes, false_iff]
    omega
  | p :: rest, i => by
    have pos := p.size_pos
    rw [deleteIn?, sizes]
    split
    · simp only [Option.isSome_some, true_iff]
      omega
    · split
      · rw [Option.isSome_map, isSome_delete?_iff]
        omega
      · rw [Option.isSome_map, isSome_deleteIn?_iff]
        omega

end

end Evolution.Point
