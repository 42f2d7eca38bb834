import Evolution.Answer.Record
import Evolution.Proofs.Answer.Id
import Evolution.Proofs.Calendar.Instant
import Evolution.Proofs.SortedTable

/-! Records and their JSON form. Every field is read back as it was written, but for the scores: one
that is not finite is written as null, and null is no score. So a record is read back exactly if all
its scores are finite. -/

namespace Evolution

namespace Json

section lists

variable {α β : Type} {read? : β → Option α}

theorem mapM_map_eq_some {write : α → β} {items : List α}
    (back : ∀ a ∈ items, read? (write a) = some a) :
    (items.map write).mapM read? = some items := by
  induction items with
  | nil => rfl
  | cons a rest ih =>
    obtain ⟨first, others⟩ := List.forall_mem_cons.mp back
    simp [first, ih others]

theorem mapM_eq_none {items : List β} {b : β} (member : b ∈ items) (unread : read? b = none) :
    items.mapM read? = none := by
  induction items with
  | nil => contradiction
  | cons first rest ih =>
    rw [List.mapM_cons]
    rcases List.mem_cons.mp member with rfl | later
    · rw [unread]
      rfl
    · cases read? first with
      | none => rfl
      | some a => simp [ih later]

end lists

@[simp]
theorem id?_ofId (id : AnswerId) : id? (ofId id) = some id := by
  simp [id?, ofId, text?]

@[simp]
theorem list?_ofIds (ids : List AnswerId) : list? id? (ofIds ids) = some ids := by
  rw [ofIds, list?]
  exact mapM_map_eq_some fun id _ => id?_ofId id

@[simp]
theorem instant?_ofInstant (t : Instant) : instant? (ofInstant t) = some t := by
  simp [instant?, ofInstant, text?]

@[simp]
theorem tags?_ofTags (tags : NameSet) : tags? (ofTags tags) = some tags := by
  have names : list? text? (ofTags tags) = some tags.names := by
    rw [ofTags, list?]
    exact mapM_map_eq_some fun _ _ => rfl
  simp [tags?, names]

@[simp]
theorem word?_ofWord (n : UInt64) : word? (ofWord n) = some n := rfl

theorem float?_ofFloat (x : Float) : float? (ofFloat x) = if x.isFinite then some x else none := by
  by_cases finite : x.isFinite = true <;> simp [ofFloat, float?, finite]

theorem scores?_ofScores {scores : SortedTable Float}
    (finite : ∀ entry ∈ scores.entries, entry.2.isFinite = true) :
    scores? (ofScores scores) = some scores := by
  simp only [scores?, ofScores, members?, Option.bind_eq_bind, Option.bind_some]
  refine Option.bind_eq_some_iff.mpr ⟨scores.entries, ?_, by simp⟩
  refine mapM_map_eq_some fun entry member => ?_
  simp [float?_ofFloat, finite entry member]

theorem scores?_ofScores_eq_none {scores : SortedTable Float} {entry : String × Float}
    (member : entry ∈ scores.entries) (infinite : entry.2.isFinite = false) :
    scores? (ofScores scores) = none := by
  simp only [scores?, ofScores, members?, Option.bind_eq_bind, Option.bind_some]
  rw [mapM_eq_none (List.mem_map_of_mem member)]
  · rfl
  · simp [float?_ofFloat, infinite]

end Json

namespace AnswerRecord

/-- All scores are finite numbers. -/
def Finite (r : AnswerRecord) : Prop := ∀ entry ∈ r.scores.entries, entry.2.isFinite = true

instance (r : AnswerRecord) : Decidable r.Finite :=
  inferInstanceAs (Decidable (∀ entry ∈ r.scores.entries, _))

theorem ofJson?_toJson (r : AnswerRecord) :
    ofJson? r.toJson = if r.Finite then some r else none := by
  have fields : r.toJson.record?
      ["id", "blueprint", "tags", "scores", "timestamp", "progress", "ancestors", "language"] =
      r.toJson.members? := rfl
  have read : ofJson? r.toJson =
      (Json.scores? (.ofScores r.scores)).map fun scores => { r with scores } := by
    simp only [ofJson?, fields]
    simp [toJson, Json.members?, Json.required?, Json.text?, Table.lookup_entry]
    exact Option.map_eq_bind.symm
  rw [read]
  by_cases finite : r.Finite
  · rw [if_pos finite, Json.scores?_ofScores finite]
    rfl
  · rw [if_neg finite]
    obtain ⟨entry, member, infinite⟩ : ∃ entry ∈ r.scores.entries, entry.2.isFinite = false := by
      simpa [Finite] using finite
    rw [Json.scores?_ofScores_eq_none member infinite]
    rfl

end AnswerRecord

end Evolution
