import Evolution.Proofs.Store.Loading

/-! Generations. Every answer that is saved under a name counts up the generation of the document, and
holds the revision that the document got by it. So over any calls the generation tells how many they
were, the revisions of a document never come back, and the answer that was saved last holds the one
that the store has. -/

namespace Evolution.Store

variable {s t : Store} {given kept : List Answer} {id : String}

/-- From one store to another by writing answers one after the other: the answers as they are given
and as they are left. -/
inductive Writes : Store → List Answer → List Answer → Store → Prop
  | nil {s : Store} : Writes s [] [] s
  | cons {s t : Store} (supply : Supply) (a : Answer) {rest kept : List Answer}
      (others : Writes (s.write supply a).store rest kept t) :
      Writes s (a :: rest) ((s.write supply a).answer :: kept) t

theorem Writes.append {u : Store} {more after : List Answer} (first : Writes s given kept t)
    (others : Writes t more after u) : Writes s (given ++ more) (kept ++ after) u := by
  induction first with
  | nil => exact others
  | cons supply a _ ih => exact .cons supply a (ih others)

theorem writes_writeAll (s : Store) (supply : Supply) (answers : List Answer) :
    Writes s answers (s.writeAll supply answers).2.2.1 (s.writeAll supply answers).1 := by
  induction answers generalizing s supply with
  | nil => exact .nil
  | cons a rest ih => exact .cons supply a (ih _ _)

/-- The calls that succeed: the answers each of them was given, and how it left them. -/
def log (s : Store) : List SaveCall → List (List Answer × List Answer)
  | [] => []
  | c :: rest =>
    match s.save c.supply c.answers with
    | .error _ => s.log rest
    | .ok (later, _, kept, _) => (c.answers, kept) :: later.log rest

/-- The answers that the calls were given which succeed. -/
def accepted (s : Store) (calls : List SaveCall) : List Answer := (s.log calls).flatMap Prod.fst

/-- The answers as the calls leave them which succeed. -/
def returned (s : Store) (calls : List SaveCall) : List Answer := (s.log calls).flatMap Prod.snd

theorem writes_afterCalls (s : Store) (calls : List SaveCall) :
    Writes s (s.accepted calls) (s.returned calls) (s.afterCalls calls) := by
  induction calls generalizing s with
  | nil => exact .nil
  | cons c rest ih =>
    rw [accepted, returned, log, afterCalls]
    cases saved : s.save c.supply c.answers with
    | error _ => exact ih s
    | ok result =>
      obtain ⟨later, supply, kept, receipts⟩ := result
      have first := writes_writeAll s c.supply c.answers
      rw [(save_eq_ok_iff.mp saved).2] at first
      exact first.append (ih later)

theorem afterCalls_append (s : Store) (earlier later : List SaveCall) :
    s.afterCalls (earlier ++ later) = (s.afterCalls earlier).afterCalls later := by
  induction earlier generalizing s with
  | nil => rfl
  | cons c rest ih =>
    rw [List.cons_append, afterCalls, afterCalls]
    split
    · exact ih s
    · exact ih _

/-- The answers that carry a name. -/
def under (id : String) (answers : List Answer) : List Answer :=
  answers.filter (·.externalId = some id)

theorem under_cons_write (supply : Supply) (a : Answer) (rest : List Answer) :
    under id ((s.write supply a).answer :: rest) =
      if nameOf a = id then (s.write supply a).answer :: under id rest else under id rest := by
  simp [under, List.filter_cons, Store.write, Answer.setExternal]

theorem revision?_write (supply : Supply) (a : Answer) :
    (s.write supply a).store.revision? id =
      if nameOf a = id then (s.write supply a).answer.revision else s.revision? id := by
  simp only [revision?, Store.write, Table.get?_insert, Answer.setExternal]
  by_cases same : nameOf a = id
  · simp [same]
  · simp [same, Ne.symm same]

/-- Every answer is left with the name that it is filed by. -/
theorem Writes.names (path : Writes s given kept t) :
    kept.map (·.externalId) = given.map (some ∘ nameOf) := by
  induction path with
  | nil => rfl
  | cons supply a _ ih =>
    rw [List.map_cons, List.map_cons, ih]
    rfl

/-- So as many answers are left under a name as are filed by it. -/
theorem Writes.length_under (path : Writes s given kept t) (id : String) :
    (under id kept).length = (given.map nameOf).count id := by
  induction path with
  | nil => rfl
  | cons supply a _ ih =>
    rw [under_cons_write, List.map_cons, List.count_cons, ← ih]
    by_cases same : nameOf a = id
    · simp [same]
    · simp [same]

theorem Writes.stamped (path : Writes s given kept t) (h : s.Stamped) : t.Stamped := by
  induction path with
  | nil => exact h
  | cons supply a _ ih => exact ih (h.write supply a)

theorem Writes.written_eq (path : Writes s given kept t) (id : String) :
    t.written id = s.written id + (given.map nameOf).count id := by
  induction path with
  | nil => rfl
  | cons supply a _ ih =>
    rw [ih, written_write, List.map_cons, List.count_cons]
    simp only [beq_iff_eq]
    omega

/-- The store has the revision that the last answer under the name has got, if there was one. -/
theorem Writes.revision?_eq (path : Writes s given kept t) (id : String) :
    t.revision? id = ((under id kept).map (·.revision)).getLast?.getD (s.revision? id) := by
  induction path with
  | nil => rfl
  | cons supply a _ ih =>
    rw [ih, revision?_write, under_cons_write]
    split
    · rw [List.map_cons, List.getLast?_cons, Option.getD_some]
    · rfl

/-- The answers under a name hold revisions whose generations go up one by one from the one that the
document had. -/
theorem Writes.exists_revisionOf (path : Writes s given kept t) {k : Nat} {a : Answer}
    (place : (under id kept)[k]? = some a) :
    ∃ stamp, a.revision = some (revisionOf (s.written id + (k + 1)) stamp) := by
  induction path generalizing k with
  | nil => simp [under] at place
  | @cons s _ supply b rest kept _ ih =>
    rw [under_cons_write] at place
    by_cases same : nameOf b = id
    · rw [if_pos same] at place
      cases k with
      | zero =>
        obtain rfl := Option.some.inj place
        exact ⟨supply.fresh.1, by rw [← same]; rfl⟩
      | succ k =>
        obtain ⟨stamp, carried⟩ := ih place
        rw [written_write, if_pos same] at carried
        exact ⟨stamp, by rw [carried, Nat.add_assoc, Nat.add_comm 1]⟩
    · rw [if_neg same] at place
      obtain ⟨stamp, carried⟩ := ih place
      rw [written_write, if_neg same, Nat.add_zero] at carried
      exact ⟨stamp, carried⟩

theorem Writes.nodup_revisions (path : Writes s given kept t) (id : String) :
    ((under id kept).map (·.revision)).Nodup := by
  rw [List.nodup_iff_getElem?_ne_getElem?]
  intro i j before inside same
  rw [List.length_map] at inside
  obtain ⟨stamp, first⟩ := path.exists_revisionOf (List.getElem?_eq_getElem (before.trans inside))
  obtain ⟨stamp', second⟩ := path.exists_revisionOf (List.getElem?_eq_getElem inside)
  rw [List.getElem?_map, List.getElem?_map, List.getElem?_eq_getElem (before.trans inside),
    List.getElem?_eq_getElem inside, Option.map_some, Option.map_some, first, second] at same
  have generations := congrArg
    (fun text : String => Nat.ofDigitChars 10 (text.toList.takeWhile (· ≠ '-')) 0)
    (Option.some.inj (Option.some.inj same))
  simp only [ofDigitChars_revisionOf] at generations
  omega

theorem Writes.revision_ne_none (path : Writes s given kept t) {a : Answer} (member : a ∈ under id kept) :
    a.revision ≠ none := by
  obtain ⟨k, place⟩ := List.mem_iff_getElem?.mp member
  obtain ⟨stamp, carried⟩ := path.exists_revisionOf place
  simp [carried]

/-- A name has a document if it had one before or an answer was filed by it. -/
theorem Writes.revision?_ne_none_iff (path : Writes s given kept t) :
    t.revision? id ≠ none ↔ s.revision? id ≠ none ∨ id ∈ given.map nameOf := by
  rw [path.revision?_eq id, ← List.count_pos_iff, ← path.length_under id, List.length_pos_iff]
  cases newest : ((under id kept).map (·.revision)).getLast? with
  | none =>
    rw [List.getLast?_eq_none_iff, List.map_eq_nil_iff] at newest
    simp [newest]
  | some revision =>
    obtain ⟨a, member, rfl⟩ := List.mem_map.mp (List.mem_of_getLast? newest)
    have there : under id kept ≠ [] := List.ne_nil_of_mem member
    simp [path.revision_ne_none member, there]

/-- A document has a revision again only if nothing was filed by its name since. -/
theorem Writes.notMem_of_revision? (path : Writes s given kept t) (h : s.Stamped) {revision : String}
    (first : s.revision? id = some revision) (again : t.revision? id = some revision) :
    id ∉ given.map nameOf := by
  have equal : s.written id = t.written id := h.written_eq (path.stamped h) first again
  rw [path.written_eq id] at equal
  exact List.count_eq_zero.mp (by omega)

/-- Every answer of a call that succeeds is left with the name that it is filed by, and a name has a
document as soon as an answer is filed by it; documents stay, whatever calls come later. The revision
of a document begins with its generation, and that is the number of answers filed by its name. The
answers under a name have got the generations from one on, in order, so that no revision comes back,
and the last of them the revision that the document has. -/
theorem generations_count_writings (earlier later : List SaveCall) :
    let before := empty.afterCalls earlier
    let after := empty.afterCalls (earlier ++ later)
    let names := (empty.accepted (earlier ++ later)).map nameOf
    let answers := empty.returned (earlier ++ later)
    answers.map (·.externalId) = names.map some ∧ ∀ id,
      (before.revision? id ≠ none → after.revision? id ≠ none) ∧
      (after.revision? id ≠ none ↔ id ∈ names) ∧
      (∀ d, after.documents.get? id = some d → d.generation = names.count id ∧
        ∃ stamp, d.revision = toString d.generation ++ "-" ++ stamp) ∧
      (∀ k a, (under id answers)[k]? = some a →
        ∃ stamp, a.revision = some (toString (k + 1) ++ "-" ++ stamp)) ∧
      ((under id answers).map (·.revision)).Nodup ∧
      (∀ r, before.revision? id = some r → after.revision? id = some r →
        id ∉ (before.accepted later).map nameOf) ∧
      ∀ a, (under id answers).getLast? = some a →
        a.externalId = some id ∧ a.revision = after.revision? id ∧ a.revision ≠ none := by
  intro before after names answers
  have whole : Writes empty _ answers after := writes_afterCalls _ _
  have since : Writes before (before.accepted later) (before.returned later) after := by
    have path := writes_afterCalls before later
    rwa [← afterCalls_append] at path
  have stamped : before.Stamped := (writes_afterCalls empty earlier).stamped stamped_empty
  refine ⟨by rw [whole.names, List.map_map], fun id => ⟨fun there => ?_, ?_, fun d found => ⟨?_, ?_⟩,
    fun k a place => ?_, whole.nodup_revisions id, fun r => since.notMem_of_revision? stamped,
    fun a last => ⟨?_, ?_, ?_⟩⟩⟩
  · exact since.revision?_ne_none_iff.mpr (.inl there)
  · rw [whole.revision?_ne_none_iff]
    exact or_iff_right fun there => there rfl
  · have counted : after.written id = d.generation := by rw [Store.written, found]; rfl
    rw [← counted, whole.written_eq id]
    exact Nat.zero_add _
  · obtain ⟨stamp, begun⟩ := whole.stamped stamped_empty id d found
    exact ⟨stamp.write, begun⟩
  · obtain ⟨stamp, carried⟩ := whole.exists_revisionOf place
    rw [show empty.written id = 0 from rfl, Nat.zero_add] at carried
    exact ⟨stamp.write, carried⟩
  · simpa using (List.mem_filter.mp (List.mem_of_getLast? last)).2
  · rw [whole.revision?_eq id, List.getLast?_map, last]
    rfl
  · exact whole.revision_ne_none (List.mem_of_getLast? last)

/-- An insertion, two updates from the same revision in one call, and a call that comes too late with
that revision: three answers are counted. -/
theorem generations_count_writings_of_repeat :
    let a := Answer.new ⟨1⟩ .epoch (.ofPoint (.block []))
    let update := a.setExternal a.id.write ("1-" ++ AnswerId.write ⟨7⟩)
    let earlier : List SaveCall := [⟨⟨7, .epoch⟩, [a]⟩]
    let later : List SaveCall := [⟨⟨8, .epoch⟩, [update, update]⟩, ⟨⟨10, .epoch⟩, [update]⟩]
    let after := empty.afterCalls (earlier ++ later)
    (empty.accepted (earlier ++ later)).map nameOf = List.replicate 3 a.id.write ∧
      ∃ d, after.documents.get? a.id.write = some d ∧ d.generation = 3 ∧
        ∃ stamp, d.revision = "3-" ++ stamp := by
  intro a update earlier later after
  have names : (empty.accepted (earlier ++ later)).map nameOf = List.replicate 3 a.id.write := by
    decide +kernel
  obtain ⟨-, filed, counted, -⟩ := (generations_count_writings earlier later).2 a.id.write
  rw [names] at filed counted
  obtain ⟨revision, there⟩ := Option.ne_none_iff_exists'.mp (filed.mpr (by simp))
  obtain ⟨d, found, rfl⟩ := Option.map_eq_some_iff.mp there
  obtain ⟨generation, stamp, revised⟩ := counted d found
  rw [List.count_replicate_self] at generation
  exact ⟨names, d, found, generation, stamp, by rw [revised, generation]; rfl⟩

end Evolution.Store
