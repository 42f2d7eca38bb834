import Mathlib.Logic.Basic

/-! Steps made one after the other, up to the first that fails. -/

namespace Evolution

variable {α β ε : Type} {check : α → Except ε Unit} {l : List α}

theorem bind_eq_ok_iff {first : Except ε α} {next : α → Except ε β} {b : β} :
    first >>= next = .ok b ↔ ∃ a, first = .ok a ∧ next a = .ok b := by
  cases first <;> simp [bind, Except.bind]

theorem forM_eq_ok_iff : l.forM check = .ok () ↔ ∀ a ∈ l, check a = .ok () := by
  induction l with
  | nil => simp [pure, Except.pure]
  | cons a rest ih =>
    rw [List.forM, List.forall_mem_cons, ← ih]
    cases check a <;> simp [bind, Except.bind]

theorem exists_forM_eq_error_iff :
    (∃ cause, l.forM check = .error cause) ↔ ∃ a ∈ l, ∃ cause, check a = .error cause := by
  have failed : ∀ {result : Except ε Unit}, (∃ cause, result = .error cause) ↔ ¬result = .ok () := by
    rintro (_ | _) <;> simp
  simp only [failed, forM_eq_ok_iff, not_forall, exists_prop]

/-- The failure is that of the first step that fails. -/
theorem forM_eq_error_iff {cause : ε} : l.forM check = .error cause ↔
    ∃ before a after, l = before ++ a :: after ∧ (∀ b ∈ before, check b = .ok ()) ∧
      check a = .error cause := by
  induction l with
  | nil => simp [pure, Except.pure]
  | cons a rest ih =>
    rw [List.forM]
    simp only [List.cons_eq_append_iff]
    cases checked : check a with
    | error first =>
      constructor
      · rintro ⟨⟩
        exact ⟨[], a, rest, .inl ⟨rfl, rfl⟩, by simp, checked⟩
      · rintro ⟨before, b, after, ⟨rfl, same⟩ | ⟨before, rfl, _⟩, passed, failed⟩
        · obtain ⟨rfl, rfl⟩ := List.cons.inj same
          exact checked.symm.trans failed
        · simp [checked] at passed
    | ok _ =>
      refine ih.trans ⟨?_, ?_⟩
      · rintro ⟨before, b, after, rfl, passed, failed⟩
        exact ⟨a :: before, b, after, .inr ⟨before, rfl, rfl⟩,
          List.forall_mem_cons.mpr ⟨checked, passed⟩, failed⟩
      · rintro ⟨before, b, after, ⟨rfl, same⟩ | ⟨before, rfl, same⟩, passed, failed⟩
        · obtain ⟨rfl, rfl⟩ := List.cons.inj same
          simp [checked] at failed
        · exact ⟨before, b, after, same, (List.forall_mem_cons.mp passed).2, failed⟩

theorem forM_flatMap {f : β → List α} (items : List β) :
    (items.flatMap f).forM check = items.forM fun item => (f item).forM check := by
  induction items with
  | nil => rfl
  | cons item rest ih =>
    simp only [List.forM_eq_forM] at ih ⊢
    rw [List.flatMap_cons, List.forM_append, List.forM_cons, ih]

/-- A fold whose steps fail or not whatever was made before is, but for what it makes, a row of
checks. -/
theorem map_foldlM_eq_forM {step : β → α → Except ε β}
    (alike : ∀ made a, (step made a).map (fun _ => ()) = check a) (start : β) :
    (l.foldlM step start).map (fun _ => ()) = l.forM check := by
  induction l generalizing start with
  | nil => rfl
  | cons a rest ih =>
    rw [List.foldlM_cons, List.forM, ← alike start a]
    cases step start a with
    | error cause => rfl
    | ok next => exact ih next

end Evolution
