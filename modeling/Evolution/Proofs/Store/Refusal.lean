import Evolution.Proofs.Store.Concurrency

/-! Refusals. Writing goes on in the places of the documents and of the answers, and the encoding of a
record could stop it half-way. It never does, and all that the store refuses is found before the first
answer is written; so a call that is refused leaves everything as it was. -/

namespace Evolution.Store

variable {s : Store} {encodes : AnswerRecord → Bool}

/-- Why the store refuses an answer: it names a document that is not there, or carries another
revision than the document has, or none. -/
inductive Refuses (s : Store) (a : Answer) : StoreError → Prop
  | notFound {id : String} (filed : a.externalId = some id) (absent : s.revision? id = none) :
      s.Refuses a (.notFound id)
  | conflict {id current : String} (filed : a.externalId = some id)
      (held : s.revision? id = some current) (other : a.revision ≠ some current) :
      s.Refuses a (.conflict id a.revision current)

theorem check_eq_error_iff {a : Answer} {cause : StoreError} :
    s.check a = .error cause ↔ s.Refuses a cause := by
  constructor
  · intro refused
    unfold check at refused
    cases filed : a.externalId with
    | none => simp [filed] at refused
    | some id =>
      cases found : s.documents.get? id with
      | none =>
        obtain rfl : StoreError.notFound id = cause := by simpa [filed, found] using refused
        exact .notFound filed (by simp [revision?, found])
      | some d =>
        by_cases same : a.revision = some d.revision
        · simp [filed, found, same] at refused
        · obtain rfl : StoreError.conflict id a.revision d.revision = cause := by
            simpa [filed, found, same] using refused
          exact .conflict filed (by simp [revision?, found]) same
  · intro refused
    unfold check
    cases refused with
    | notFound filed absent =>
      have absent : s.documents.get? _ = none := Option.map_eq_none_iff.mp absent
      simp only [filed, absent]
    | conflict filed held other =>
      obtain ⟨d, found, rfl⟩ := Option.map_eq_some_iff.mp held
      simp only [filed, found, if_neg other]

/-- The store refuses an answer exactly if it has no such document, or not with that revision. -/
theorem exists_refuses_iff {a : Answer} : (∃ cause, s.Refuses a cause) ↔
    ∃ id, a.externalId = some id ∧ (s.revision? id = none ∨ a.revision ≠ s.revision? id) := by
  constructor
  · rintro ⟨cause, refuses⟩
    cases refuses with
    | notFound filed absent => exact ⟨_, filed, .inl absent⟩
    | conflict filed held other => exact ⟨_, filed, .inr (held ▸ other)⟩
  · rintro ⟨id, filed, unlike⟩
    cases held : s.revision? id with
    | none => exact ⟨_, .notFound filed held⟩
    | some current =>
      rw [held] at unlike
      exact ⟨_, .conflict filed held (unlike.resolve_left (Option.some_ne_none _))⟩

theorem writeInPlace_eq_writeAll (encoded : ∀ r, encodes r = true) (supply : Supply)
    (answers : List Answer) :
    s.writeInPlace encodes supply answers =
      ⟨(s.writeAll supply answers).1, (s.writeAll supply answers).2.1,
        (s.writeAll supply answers).2.2.1, .ok (s.writeAll supply answers).2.2.2⟩ := by
  induction answers generalizing s supply with
  | nil => rfl
  | cons a rest ih =>
    rw [writeInPlace, if_pos (encoded a.record)]
    simp only [ih]
    rfl

/-- A call on the answers in their places does what one on copies does. -/
theorem result_saveInPlace (encoded : ∀ r, encodes r = true) (supply : Supply)
    (answers : List Answer) :
    (s.saveInPlace encodes supply answers).result = s.save supply answers := by
  rw [saveInPlace, save]
  cases answers.forM s.check with
  | error cause => rfl
  | ok _ =>
    simp only [writeInPlace_eq_writeAll encoded]
    rfl

theorem outcome_saveInPlace_eq_error_iff (encoded : ∀ r, encodes r = true) {supply : Supply}
    {answers : List Answer} {cause : StoreError} :
    (s.saveInPlace encodes supply answers).outcome = .error cause ↔
      answers.forM s.check = .error cause := by
  rw [saveInPlace]
  cases answers.forM s.check with
  | error first => simp
  | ok _ => simp [writeInPlace_eq_writeAll encoded]

/-- A call in place does what one on copies does. It is refused exactly if the store refuses one of its
answers, for the reason it refuses the first of them; and then the store and all the answers, also
those that it would have taken, are as before. That a record cannot be encoded is never the reason. -/
theorem refused_saving_changes_nothing (encodes : AnswerRecord → Bool)
    (encoded : ∀ r, encodes r = true) (s : Store) (supply : Supply) (answers : List Answer) :
    let done := s.saveInPlace encodes supply answers
    done.result = s.save supply answers ∧
    ((∃ cause, done.outcome = .error cause) ↔ ∃ a ∈ answers, ∃ id, a.externalId = some id ∧
      (s.revision? id = none ∨ a.revision ≠ s.revision? id)) ∧
    ∀ cause, done.outcome = .error cause →
      (∃ before a after, answers = before ++ a :: after ∧
        (∀ b ∈ before, ∀ other, ¬s.Refuses b other) ∧ s.Refuses a cause) ∧
      (∀ id, cause ≠ .unreadable id) ∧
      done.store = s ∧ done.supply = supply ∧ done.answers = answers := by
  intro done
  have refused (cause : StoreError) : done.outcome = .error cause ↔ _ :=
    outcome_saveInPlace_eq_error_iff encoded
  refine ⟨result_saveInPlace encoded supply answers, ?_, ?_⟩
  · simp only [refused, exists_forM_eq_error_iff, check_eq_error_iff, exists_refuses_iff]
  · intro cause ended
    have stopped : answers.forM s.check = .error cause := (refused cause).mp ended
    obtain ⟨before, a, after, split, passed, failed⟩ := forM_eq_error_iff.mp stopped
    have first : s.Refuses a cause := check_eq_error_iff.mp failed
    have unchanged : done = ⟨s, supply, answers, .error cause⟩ := by
      simp only [done, saveInPlace, stopped]
    refine ⟨⟨before, a, after, split, fun b member other refuses => ?_, first⟩, ?_, ?_⟩
    · have failed := check_eq_error_iff.mpr refuses
      simp [passed b member] at failed
    · rintro id rfl
      cases first
    · simp [unchanged]

/-- A new answer and an update in front of a stale one and one that the store does not know: the
stale one is the reason, and the answers in front of it stay unsaved. -/
theorem refused_saving_of_stale_answer :
    let s := (empty.writeAll ⟨7, .epoch⟩ [fresh, .new ⟨2⟩ .epoch .empty]).1
    let second := (Answer.new ⟨2⟩ .epoch .empty).setExternal (AnswerId.write ⟨2⟩) (revisionOf 1 ⟨8⟩)
    let stale := kept.setExternal kept.id.write (revisionOf 4 ⟨7⟩)
    let unknown := kept.setExternal "elsewhere" (revisionOf 1 ⟨7⟩)
    let answers := [.new ⟨3⟩ .epoch .empty, second, stale, unknown]
    let done := s.saveInPlace (fun _ => true) ⟨9, .epoch⟩ answers
    done.outcome = .error (.conflict kept.id.write (some (revisionOf 4 ⟨7⟩)) (revisionOf 1 ⟨7⟩)) ∧
      s.check second = .ok () ∧ done.store = s ∧ done.answers = answers := by
  intro s second stale unknown answers done
  have refused : done.outcome = .error (.conflict kept.id.write (some (revisionOf 4 ⟨7⟩))
      (revisionOf 1 ⟨7⟩)) :=
    (outcome_saveInPlace_eq_error_iff fun _ => rfl).mpr (by decide +kernel)
  obtain ⟨-, -, store, -, same⟩ :=
    (refused_saving_changes_nothing (fun _ => true) (fun _ => rfl) s ⟨9, .epoch⟩ answers).2.2 _
      refused
  exact ⟨refused, by decide +kernel, store, same⟩

end Evolution.Store
