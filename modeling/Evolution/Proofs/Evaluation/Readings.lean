import Evolution.Proofs.Evaluation.Batch

/-! What an evaluation keeps of its runs: under each name the readings of all runs that have one, the
answers in their order and for each answer the cases in theirs. -/

namespace Evolution.Evaluator

variable {e : Evaluator} {cases : List TestCase} {p : Program} {name : String}

/-- The readings under a name; without readings there is no entry. -/
def listed (found : List (Option Value)) : Option (List (Option Value)) :=
  if found.isEmpty then none else some found

theorem listed_eq_none_iff {found : List (Option Value)} : listed found = none ↔ found = [] := by
  cases found <;> simp [listed]

theorem listed_eq_some_iff {found kept : List (Option Value)} :
    listed found = some kept ↔ found = kept ∧ kept ≠ [] := by
  cases found with
  | nil => simp [listed]
  | cons first rest =>
    simp only [listed, List.isEmpty_cons, Bool.false_eq_true, if_false, Option.some.injEq]
    exact ⟨fun same => ⟨same, same ▸ List.cons_ne_nil _ _⟩, And.left⟩

theorem get?_record (raw : Table (List (Option Value))) (readings : Readings) (name : String) :
    (record raw readings).get? name =
      match readings.get? name with
      | some value => some ((raw.get? name).getD [] ++ [value])
      | none => raw.get? name := by
  obtain ⟨entries, distinct⟩ := readings
  induction entries generalizing raw with
  | nil => rfl
  | cons entry rest ih =>
    obtain ⟨key, value⟩ := entry
    obtain ⟨absent, distinct⟩ := List.nodup_cons.mp distinct
    have rest' := ih (raw.insert key ((raw.get? key).getD [] ++ [value])) distinct
    simp only [record, Table.get?, List.foldl_cons, Table.lookup_entry] at rest' ⊢
    rw [rest']
    by_cases same : name = key
    · have once : rest.lookup key = none := Table.get?_eq_none (t := ⟨rest, distinct⟩) (by
        simpa [Table.contains, Table.names] using absent)
      subst same
      rw [once, if_pos rfl]
      exact (Table.get?_insert _ _ _ _).trans (if_pos rfl)
    · have other := (Table.get?_insert raw key name ((raw.get? key).getD [] ++ [value])).trans
        (if_neg same)
      simp only [Table.get?] at other
      rw [if_neg same, other]

/-- The runs that read something under a name add their readings to those before. -/
theorem get?_foldl_record (runs : List Readings) (raw : Table (List (Option Value)))
    (name : String) :
    (runs.foldl record raw).get? name =
      let found := runs.filterMap (·.get? name)
      if found.isEmpty then raw.get? name else some ((raw.get? name).getD [] ++ found) := by
  induction runs generalizing raw with
  | nil => rfl
  | cons readings rest ih =>
    rw [List.foldl_cons, ih, get?_record]
    cases read : readings.get? name with
    | none => simp [read]
    | some value =>
      cases found : rest.filterMap (·.get? name) <;> simp [read, found]

theorem get?_readingsOf (programs : List Program) :
    (e.readingsOf cases programs).get? name =
      listed (programs.flatMap fun p => cases.filterMap fun c => (e.observe p c).get? name) := by
  have runs : (programs.flatMap fun p => (e.observeAll p cases).map (·.2)).filterMap
      (·.get? name) =
      programs.flatMap fun p => cases.filterMap fun c => (e.observe p c).get? name := by
    simp [List.filterMap_flatMap, observeAll, List.filterMap_map, Function.comp_def]
  rw [readingsOf, get?_foldl_record, runs]
  rfl

/-- The error of a program in a case. -/
def errorIn (e : Evaluator) (p : Program) (c : TestCase) : Float := e.caseError c (e.observe p c)

/-- Errors are added up from the first case to the last. -/
theorem scoreOf_eq (e : Evaluator) (cases : List TestCase) (p : Program) :
    e.scoreOf cases p =
      e.options.rule.conclude (cases.foldl (fun sum c => sum + e.errorIn p c) 0) cases.length := by
  simp [scoreOf, score, observeAll, errorIn, List.foldl_map]

theorem isKey_error : Text.isKey "error".toList = true := by decide

/-- An evaluator without sensors of its own, with the settings by default. -/
def byGauges : Evaluator :=
  ⟨{ label := "error" }, isKey_error, .builtin, .builtin, .empty, .empty⟩

/-- A case with one output, which is read as given. -/
def caseReading (reading : Option Value) (expected : Value) : TestCase :=
  ⟨.empty, .ofList [("y", expected)], .ofList [("y", .constant reading)]⟩

end Evolution.Evaluator
