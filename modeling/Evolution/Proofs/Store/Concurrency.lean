import Evolution.Proofs.Store.Revision

/-! Calls of many clients on one store. Between calls no update is lost: a revision is overwritten
by one call only, and by one that carries it. Within a call the answers are checked before the first
is written, so two answers under one name pass together, and the second overwrites what the first
has written, unseen. That is so exactly when an update follows an answer of its name, and exactly then
the answers could not have been saved one by one. -/

namespace Evolution

structure SaveCall where
  supply : Supply
  answers : List Answer

/-- A call that succeeded, with the store as it was before. -/
structure Saved extends SaveCall where
  store : Store

structure Writing where
  answer : Answer
  /-- The revision that the document had just before, if it was there. -/
  held : Option String

/-- An update overwrites the revision that the answer carries. -/
def Writing.Seen (w : Writing) : Prop :=
  ∀ id ∈ w.answer.externalId, ∃ r, w.answer.revision = some r ∧ w.held = some r

instance (w : Writing) : Decidable w.Seen :=
  decidable_of_iff
    (w.answer.externalId = none ∨ w.held.isSome = true ∧ w.answer.revision = w.held) <| by
    unfold Writing.Seen
    cases w.answer.externalId <;> cases w.held <;> simp

namespace Store

variable {s : Store}

def writings (s : Store) (supply : Supply) : List Answer → List Writing
  | [] => []
  | a :: rest =>
    let w := s.write supply a
    ⟨a, s.revision? (nameOf a)⟩ :: w.store.writings w.supply rest

/-- Saves answers in calls of their own, up to the first that is refused. -/
def saveEach (s : Store) (supply : Supply) :
    List Answer → Except StoreError (Store × Supply × List Answer × List Receipt)
  | [] => .ok (s, supply, [], [])
  | a :: rest =>
    match s.save supply [a] with
    | .error e => .error e
    | .ok (s, supply, answers, receipts) =>
      match s.saveEach supply rest with
      | .error e => .error e
      | .ok (s, supply, others, more) => .ok (s, supply, answers ++ others, receipts ++ more)

/-- The calls among the given ones that succeed. -/
def saves (s : Store) : List SaveCall → List Saved
  | [] => []
  | c :: rest =>
    match s.save c.supply c.answers with
    | .error _ => s.saves rest
    | .ok (later, _) => ⟨c, s⟩ :: later.saves rest

/-- No update comes after an answer that is filed under the same name. -/
def Unshared (answers : List Answer) : Prop :=
  answers.Pairwise fun a b => b.externalId = none ∨ nameOf b ≠ nameOf a

instance (answers : List Answer) : Decidable (Unshared answers) :=
  inferInstanceAs (Decidable (answers.Pairwise _))

theorem seen_iff_current {a : Answer} {held : Option String} (h : held = s.revision? (nameOf a)) :
    Writing.Seen ⟨a, held⟩ ↔ s.Current a := by
  refine forall₂_congr fun id filed => ?_
  have name : nameOf a = id := by rw [nameOf, Option.mem_def.mp filed, Option.getD_some]
  rw [h, name]

/-- Each writing finds a store in which nothing was written less often than at the start. -/
theorem Stamped.writings (h : s.Stamped) {supply : Supply} {answers : List Answer} {w : Writing}
    (member : w ∈ s.writings supply answers) :
    ∃ t : Store, t.Stamped ∧ (∀ id, s.written id ≤ t.written id) ∧
      w.held = t.revision? (nameOf w.answer) := by
  induction answers generalizing s supply with
  | nil => simp [Store.writings] at member
  | cons a rest ih =>
    rcases List.mem_cons.mp member with rfl | later
    · exact ⟨s, h, fun _ => Nat.le_refl _, rfl⟩
    · obtain ⟨t, stamped, grown, held⟩ := ih (h.write supply a) later
      refine ⟨t, stamped, fun id => Nat.le_trans ?_ (grown id), held⟩
      rw [written_write]
      exact Nat.le_add_right _ _

theorem map_answer_writings (s : Store) (supply : Supply) (answers : List Answer) :
    (s.writings supply answers).map (·.answer) = answers := by
  induction answers generalizing s supply with
  | nil => rfl
  | cons a rest ih => exact congrArg (a :: ·) (ih _ _)

/-- A revision that was written over is not seen again. -/
theorem Stamped.not_seen_of_written (h : s.Stamped) {supply : Supply} {a : Answer}
    {rest : List Answer} {w : Writing}
    (member : w ∈ (s.write supply a).store.writings (s.write supply a).supply rest)
    (update : w.answer.externalId ≠ none) (same : nameOf w.answer = nameOf a)
    (current : s.Current w.answer) : ¬w.Seen := by
  intro seen
  obtain ⟨t, stamped, grown, held⟩ := (h.write supply a).writings member
  obtain ⟨id, filed⟩ := Option.ne_none_iff_exists'.mp update
  have name : nameOf w.answer = id := by simp [nameOf, filed]
  obtain ⟨r, carried, before⟩ := current id filed
  obtain ⟨r', carried', after⟩ := seen id filed
  obtain rfl := Option.some.inj (carried.symm.trans carried')
  -- A revision tells how often its document was written, and here that is more often than before.
  have equal : s.written id = t.written id :=
    h.written_eq stamped before (by rw [← name, ← held, after])
  have more : s.written id + 1 ≤ t.written id := by
    have := grown id
    rwa [written_write, if_pos (same.symm.trans name)] at this
  omega

/-- When all answers are current, their updates see what they overwrite exactly if none of them
follows an answer of its name. -/
theorem Stamped.seen_iff_unshared (h : s.Stamped) {supply : Supply} {answers : List Answer}
    (current : ∀ a ∈ answers, s.Current a) :
    (∀ w ∈ s.writings supply answers, w.Seen) ↔ Unshared answers := by
  induction answers generalizing s supply with
  | nil => simp [Store.writings, Unshared]
  | cons a rest ih =>
    rw [List.forall_mem_cons] at current
    have first : Writing.Seen ⟨a, s.revision? (nameOf a)⟩ := (seen_iff_current rfl).mpr current.1
    -- The first writing does not touch what updates with other names carry.
    have kept (apart : ∀ b ∈ rest, b.externalId = none ∨ nameOf b ≠ nameOf a) :
        ∀ b ∈ rest, (s.write supply a).store.Current b := by
      rw [← forM_check_eq_ok_iff, forM_check_write apart, forM_check_eq_ok_iff]
      exact current.2
    rw [Store.writings, List.forall_mem_cons, and_iff_right first, Unshared, List.pairwise_cons]
    constructor
    · intro seen
      have apart : ∀ b ∈ rest, b.externalId = none ∨ nameOf b ≠ nameOf a := by
        intro b member
        rw [← map_answer_writings (s.write supply a).store (s.write supply a).supply rest] at member
        obtain ⟨w, there, rfl⟩ := List.mem_map.mp member
        by_contra shared
        rw [not_or, not_not] at shared
        rw [map_answer_writings] at member
        exact h.not_seen_of_written there shared.1 shared.2 (current.2 _ member) (seen w there)
      exact ⟨apart, (ih (h.write supply a) (kept apart)).mp seen⟩
    · rintro ⟨apart, unshared⟩
      exact (ih (h.write supply a) (kept apart)).mpr unshared

theorem save_singleton (s : Store) (supply : Supply) (a : Answer) :
    s.save supply [a] =
      match s.check a with
      | .error e => .error e
      | .ok () => .ok (s.writeAll supply [a]) := by
  rw [save, List.forM]
  cases s.check a <;> rfl

/-- Saving one by one succeeds exactly if every update sees what it overwrites. -/
theorem saveEach_isOk_iff {supply : Supply} {answers : List Answer} :
    (s.saveEach supply answers).toOption.isSome = true ↔
      ∀ w ∈ s.writings supply answers, w.Seen := by
  induction answers generalizing s supply with
  | nil => simp [saveEach, Store.writings, Except.toOption]
  | cons a rest ih =>
    rw [saveEach, save_singleton, Store.writings, List.forall_mem_cons, seen_iff_current rfl,
      ← check_eq_ok_iff, ← ih]
    cases s.check a with
    | error e => simp [Except.toOption]
    | ok _ =>
      simp only [writeAll, true_and]
      cases (s.write supply a).store.saveEach (s.write supply a).supply rest <;>
        simp [Except.toOption]

/-- Answers of different names are saved one by one as they are in one call. -/
theorem saveEach_eq_save {supply : Supply} {answers : List Answer} (unshared : Unshared answers) :
    s.saveEach supply answers = s.save supply answers := by
  induction answers generalizing s supply with
  | nil => rfl
  | cons a rest ih =>
    rw [Unshared, List.pairwise_cons] at unshared
    rw [saveEach, save_singleton, save, List.forM]
    cases s.check a with
    | error e => rfl
    | ok _ =>
      simp only [writeAll, ih unshared.2, save, forM_check_write unshared.1, bind, Except.bind]
      cases rest.forM s.check <;> rfl

end Store

/-- The pairs of name and revision that the updates of a call present. -/
def Saved.presented (c : Saved) : List (String × String) :=
  c.answers.filterMap fun a => a.externalId.bind fun id => a.revision.map (id, ·)

def Saved.writings (c : Saved) : List Writing := c.store.writings c.supply c.answers

namespace Store

variable {s : Store}

/-- In a call that succeeds every answer is current, and the store has since seen each of its
documents written more often. Calls that come later find it so. -/
theorem Stamped.saves (h : s.Stamped) {calls : List SaveCall} {c : Saved}
    (member : c ∈ s.saves calls) :
    c.store.Stamped ∧ (∀ id, s.written id ≤ c.store.written id) ∧
      ∀ a ∈ c.answers, c.store.Current a := by
  induction calls generalizing s with
  | nil => simp [Store.saves] at member
  | cons call rest ih =>
    rw [Store.saves] at member
    split at member
    · exact ih h member
    · next later _ saved =>
      obtain ⟨current, result⟩ := save_eq_ok_iff.mp saved
      rcases List.mem_cons.mp member with rfl | member
      · exact ⟨h, fun _ => Nat.le_refl _, current⟩
      · obtain ⟨stamped, counts⟩ := h.writeAll call.supply call.answers
        rw [result] at stamped counts
        obtain ⟨stamped', grown, current'⟩ := ih stamped member
        refine ⟨stamped', fun id => Nat.le_trans ?_ (grown id), current'⟩
        rw [counts]
        exact Nat.le_add_right _ _

theorem mem_presented {c : Saved} {id r : String} (member : (id, r) ∈ c.presented) :
    ∃ a ∈ c.answers, a.externalId = some id ∧ a.revision = some r := by
  obtain ⟨a, there, pair⟩ := List.mem_filterMap.mp member
  obtain ⟨id', filed, pair⟩ := Option.bind_eq_some_iff.mp pair
  obtain ⟨r', carried, same⟩ := Option.map_eq_some_iff.mp pair
  obtain ⟨rfl, rfl⟩ := Prod.mk.inj same
  exact ⟨a, there, filed, carried⟩

theorem revision?_of_mem_presented {c : Saved} (current : ∀ a ∈ c.answers, c.store.Current a)
    {id r : String} (member : (id, r) ∈ c.presented) : c.store.revision? id = some r := by
  obtain ⟨a, there, filed, carried⟩ := mem_presented member
  obtain ⟨r', carried', held⟩ := current a there id filed
  rwa [Option.some.inj (carried.symm.trans carried')]

/-- Two calls that succeed present no pair in common. -/
theorem Stamped.pairwise_disjoint_presented (h : s.Stamped) (calls : List SaveCall) :
    (s.saves calls).Pairwise fun c d => c.presented.Disjoint d.presented := by
  induction calls generalizing s with
  | nil => exact .nil
  | cons call rest ih =>
    rw [Store.saves]
    split
    · exact ih h
    · next later _ saved =>
      obtain ⟨current, result⟩ := save_eq_ok_iff.mp saved
      obtain ⟨stamped, counts⟩ := h.writeAll call.supply call.answers
      rw [result] at stamped counts
      refine List.pairwise_cons.mpr ⟨?_, ih stamped⟩
      rintro d member ⟨id, r⟩ first second
      obtain ⟨stamped', grown, current'⟩ := stamped.saves member
      -- The same revision would mean as many writings, but the first call has added one.
      have equal : s.written id = d.store.written id :=
        h.written_eq stamped' (revision?_of_mem_presented (c := ⟨call, s⟩) current first)
          (revision?_of_mem_presented current' second)
      obtain ⟨a, there, filed, _⟩ := mem_presented first
      have name : nameOf a = id := by simp [nameOf, filed]
      have once : 0 < (call.answers.map nameOf).count id :=
        List.count_pos_iff.mpr (name ▸ List.mem_map_of_mem there)
      have more := grown id
      rw [counts] at more
      omega

/-- Within a call a pair is presented once exactly if its updates have different names. -/
theorem nodup_presented_iff {c : Saved} (current : ∀ a ∈ c.answers, c.store.Current a) :
    c.presented.Nodup ↔ (c.answers.filterMap (·.externalId)).Nodup := by
  have pairs : c.presented =
      (c.answers.filterMap (·.externalId)).map fun id => (id, (c.store.revision? id).getD "") := by
    rw [Saved.presented, List.map_filterMap]
    refine List.filterMap_congr fun a there => ?_
    cases filed : a.externalId with
    | none => rfl
    | some id =>
      obtain ⟨r, carried, held⟩ := current a there id filed
      simp [carried, held]
  rw [pairs]
  exact List.nodup_map_iff fun id id' same => congrArg Prod.fst same

/-- What many clients' calls on one store do to each other. An update that succeeds carries the
revision that its document had before the call, and no later call presents it again. Inside a call
the update sees the revision that it overwrites, and the answers could be saved one by one with the
same result, exactly if no update follows an answer of its name; and a revision is presented by one
update only, exactly if the updates have different names. -/
theorem saves_overwrite_what_they_saw (calls : List SaveCall) :
    let saves := empty.saves calls
    (∀ c ∈ saves, ∀ a ∈ c.answers, ∀ id ∈ a.externalId,
      ∃ r, a.revision = some r ∧ c.store.revision? id = some r) ∧
    (saves.Pairwise fun c d => c.presented.Disjoint d.presented) ∧
    (∀ c ∈ saves,
      ((∀ w ∈ c.writings, w.Seen) ↔ Unshared c.answers) ∧
      ((c.store.saveEach c.supply c.answers).toOption.isSome = true ↔ Unshared c.answers) ∧
      (Unshared c.answers →
        c.store.saveEach c.supply c.answers = c.store.save c.supply c.answers)) ∧
    ((saves.flatMap Saved.presented).Nodup ↔
      ∀ c ∈ saves, (c.answers.filterMap (·.externalId)).Nodup) := by
  intro saves
  have found : ∀ c ∈ saves, c.store.Stamped ∧ ∀ a ∈ c.answers, c.store.Current a :=
    fun c member => ⟨(stamped_empty.saves member).1, (stamped_empty.saves member).2.2⟩
  have disjoint := stamped_empty.pairwise_disjoint_presented calls
  refine ⟨fun c member => (found c member).2, disjoint, fun c member => ?_, ?_⟩
  · obtain ⟨stamped, current⟩ := found c member
    exact ⟨stamped.seen_iff_unshared current,
      saveEach_isOk_iff.trans (stamped.seen_iff_unshared current), saveEach_eq_save⟩
  · rw [List.nodup_flatMap, and_iff_left disjoint]
    exact forall₂_congr fun c member => nodup_presented_iff (found c member).2

/-- An answer that was never saved. -/
def fresh : Answer := .new ⟨1⟩ .epoch .empty

/-- The same answer as its first saving leaves it. -/
def kept : Answer := fresh.setExternal fresh.id.write (revisionOf 1 ⟨7⟩)

def firstSave : SaveCall := ⟨⟨7, .epoch⟩, [fresh]⟩

/-- Two clients hold clones of a saved answer. The first saves its clone along with a new answer; the
second is refused. -/
theorem saves_see_of_two_clients :
    let saves := empty.saves
      [firstSave, ⟨⟨8, .epoch⟩, [kept, .new ⟨2⟩ .epoch .empty]⟩, ⟨⟨10, .epoch⟩, [kept]⟩]
    saves.map (·.answers.length) = [1, 2] ∧
      ∀ c ∈ saves, Unshared c.answers ∧ ∀ w ∈ c.writings, w.Seen := by
  intro saves
  have unshared : ∀ c ∈ saves, Unshared c.answers := by decide +kernel
  refine ⟨by decide +kernel, fun c member => ⟨unshared c member, ?_⟩⟩
  exact ((saves_overwrite_what_they_saw _).2.2.1 c member).1.mpr (unshared c member)

/-- A saved answer and its clone in one call are both written: the clone overwrites a revision that it
does not carry, though it would be refused after the other, and one revision is presented twice. -/
theorem clone_in_call_overwrites_unseen :
    let saves := empty.saves [firstSave, ⟨⟨8, .epoch⟩, [kept, kept]⟩]
    ∃ c ∈ saves, c.answers = [kept, kept] ∧ (∃ w ∈ c.writings, ¬w.Seen) ∧
      (c.store.saveEach c.supply c.answers).toOption.isSome = false ∧ ¬c.presented.Nodup := by
  decide +kernel

end Store

end Evolution
