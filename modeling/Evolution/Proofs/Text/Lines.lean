import Evolution.Text.Blank
import Evolution.Text.Lines
import Mathlib.Data.List.DropRight

/-! Trimming and lines. A text is trimmed exactly when neither end is blank, and joining lines is
undone by taking the lines of the result as long as no line holds an end of its own. -/

namespace Evolution.Text

theorem trimStart_eq_self_iff {text : List Char} :
    trimStart text = text ↔ ∀ c ∈ text.head?, isBlank c = false := by
  unfold trimStart
  cases text with
  | nil => simp
  | cons c rest =>
    rw [List.dropWhile_eq_self_iff]
    simp

theorem trimEnd_eq_self_iff {text : List Char} :
    trimEnd text = text ↔ ∀ c ∈ text.getLast?, isBlank c = false := by
  change List.rdropWhile isBlank text = text ↔ _
  rw [List.rdropWhile_eq_self_iff]
  cases text with
  | nil => simp
  | cons c rest => simp [List.getLast?_eq_some_getLast]

theorem head?_trimStart {text : List Char} : ∀ c ∈ (trimStart text).head?, isBlank c = false :=
  trimStart_eq_self_iff.mp (List.dropWhile_idempotent isBlank text)

theorem getLast?_trimEnd {text : List Char} : ∀ c ∈ (trimEnd text).getLast?, isBlank c = false :=
  trimEnd_eq_self_iff.mp (List.rdropWhile_idempotent isBlank text)

/-- Dropping blanks at the end keeps the first character, unless the text is blank throughout. -/
theorem head?_trim {text : List Char} : (trim text).head? = (trimStart text).head? := by
  have pre : trim text <+: trimStart text := List.rdropWhile_prefix isBlank _
  cases start : trimStart text with
  | nil => simp [trim, start, trimEnd]
  | cons c rest =>
    have first : isBlank c = false :=
      head?_trimStart c (by simp [start] : c ∈ (trimStart text).head?)
    cases all : trim text with
    | nil =>
      have blank := List.rdropWhile_eq_nil_iff.mp (show List.rdropWhile isBlank (trimStart text) = []
        from all)
      have := blank c (by simp [start])
      simp [first] at this
    | cons d more =>
      rw [all, start, List.cons_prefix_cons] at pre
      simp [pre.1]

theorem trim_eq_self_iff {text : List Char} : trim text = text ↔
    (∀ c ∈ text.head?, isBlank c = false) ∧ ∀ c ∈ text.getLast?, isBlank c = false := by
  constructor
  · intro same
    constructor
    · rw [← same, head?_trim]
      exact head?_trimStart
    · rw [← same]
      exact getLast?_trimEnd
  · rintro ⟨first, last⟩
    rw [trim, trimStart_eq_self_iff.mpr first, trimEnd_eq_self_iff.mpr last]

theorem trim_trim (text : List Char) : trim (trim text) = trim text :=
  trim_eq_self_iff.mpr ⟨by rw [head?_trim]; exact head?_trimStart, getLast?_trimEnd⟩

theorem mem_of_mem_trim {text : List Char} {c : Char} (h : c ∈ trim text) : c ∈ text :=
  (List.dropWhile_sublist isBlank).subset ((List.rdropWhile_prefix isBlank _).subset h)

/-- A line that ends neither in a newline nor in a carriage return comes out as it went in. -/
theorem lines_append_newline {line rest : List Char} (inside : '\n' ∉ line)
    (ending : line.getLast? ≠ some '\r') : lines (line ++ '\n' :: rest) = line :: lines rest := by
  induction line with
  | nil => simp [lines]
  | cons c line ih =>
    have first : c ≠ '\n' := fun h => inside (by simp [h])
    have tail : '\n' ∉ line := fun h => inside (List.mem_cons_of_mem c h)
    have noReturn : ∀ more, c = '\r' → line ++ '\n' :: rest = '\n' :: more → False := by
      intro more carriage same
      cases line with
      | nil => exact ending (by simp [carriage])
      | cons d line =>
        rw [List.cons_append, List.cons.injEq] at same
        exact tail (by simp [same.1])
    have ends : line.getLast? ≠ some '\r' := by
      intro h
      apply ending
      rw [List.getLast?_cons, h]
      rfl
    rw [List.cons_append, lines.eq_4 _ _ first noReturn, ih tail ends]

theorem lines_eq_singleton {line : List Char} (filled : line ≠ []) (inside : '\n' ∉ line) :
    lines line = [line] := by
  induction line with
  | nil => exact absurd rfl filled
  | cons c line ih =>
    have first : c ≠ '\n' := fun h => inside (by simp [h])
    have tail : '\n' ∉ line := fun h => inside (List.mem_cons_of_mem c h)
    have noReturn : ∀ more, c = '\r' → line = '\n' :: more → False := by
      rintro more - rfl
      exact tail (by simp)
    rw [lines.eq_4 _ _ first noReturn]
    cases line with
    | nil => rfl
    | cons d line => rw [ih (by simp) tail]

/-- What a line must be to be found again between its neighbours. -/
def IsLine (line : List Char) : Prop :=
  line ≠ [] ∧ '\n' ∉ line ∧ line.getLast? ≠ some '\r'

theorem lines_joinLines {ls : List (List Char)} (h : ∀ line ∈ ls, IsLine line) :
    lines (joinLines ls) = ls := by
  induction ls with
  | nil => rfl
  | cons line more ih =>
    obtain ⟨filled, inside, ending⟩ := h line (by simp)
    cases more with
    | nil => exact lines_eq_singleton filled inside
    | cons next more =>
      rw [joinLines, lines_append_newline inside ending]
      rw [ih (fun l hl => h l (List.mem_cons_of_mem line hl))]

theorem newline_notMem_of_mem_lines {text line : List Char} (h : line ∈ lines text) :
    '\n' ∉ line := by
  induction text using lines.induct generalizing line with
  | case1 => simp [lines] at h
  | case2 rest ih =>
    rw [lines, List.mem_cons] at h
    rcases h with rfl | h
    · simp
    · exact ih h
  | case3 rest ih =>
    rw [lines, List.mem_cons] at h
    rcases h with rfl | h
    · simp
    · exact ih h
  | case4 c rest first noReturn none ih =>
    rw [lines.eq_4 _ _ first noReturn, none, List.mem_singleton] at h
    subst line
    simpa using Ne.symm first
  | case5 c rest first noReturn head more some ih =>
    rw [lines.eq_4 _ _ first noReturn, some, List.mem_cons] at h
    rcases h with rfl | h
    · have := ih (show head ∈ lines rest by simp [some])
      simpa [this] using Ne.symm first
    · exact ih (by simp [some, h])

theorem joinLines_eq_intercalate (ls : List (List Char)) :
    joinLines ls = ['\n'].intercalate ls := by
  induction ls with
  | nil => rfl
  | cons line more ih =>
    cases more with
    | nil => simp [joinLines]
    | cons next more => simp [joinLines, ih]

/-- Joining undoes splitting at newlines. -/
theorem joinLines_splitOn (text : List Char) : joinLines (text.splitOn '\n') = text := by
  rw [joinLines_eq_intercalate, List.intercalate_splitOn]

theorem splitOn_joinLines {ls : List (List Char)} (some : ls ≠ []) (h : ∀ line ∈ ls, '\n' ∉ line) :
    (joinLines ls).splitOn '\n' = ls := by
  rw [joinLines_eq_intercalate, List.splitOn_intercalate _ h some]

theorem newline_notMem_of_mem_splitOn {text line : List Char} (h : line ∈ text.splitOn '\n') :
    '\n' ∉ line := by
  induction text generalizing line with
  | nil => simp_all
  | cons c text ih =>
    rw [List.splitOn_cons_eq_if_modifyHead] at h
    split at h
    · rcases List.mem_cons.mp h with rfl | h
      · simp
      · exact ih h
    · next other =>
      obtain ⟨first, more, same⟩ := List.exists_cons_of_ne_nil (List.splitOn_ne_nil '\n' text)
      rw [same, List.modifyHead_cons, List.mem_cons] at h
      rcases h with rfl | h
      · have tail := ih (show first ∈ text.splitOn '\n' by simp [same])
        have head : '\n' ≠ c := fun h => other (by simp [← h])
        simp [head, tail]
      · exact ih (by simp [same, h])

theorem getLast?_joinLines {ls : List (List Char)} {line : List Char}
    (last : ls.getLast? = some line) (filled : line ≠ []) :
    (joinLines ls).getLast? = line.getLast? := by
  induction ls with
  | nil => simp at last
  | cons head more ih =>
    cases more with
    | nil =>
      obtain rfl : head = line := by simpa using last
      rfl
    | cons next more =>
      have tail := ih (by simpa using last)
      rw [joinLines, List.getLast?_append_of_ne_nil _ (by simp), List.getLast?_cons, tail,
        List.getLast?_eq_some_getLast filled]
      rfl

theorem joinLines_append {ls more : List (List Char)} (h : ls ≠ []) (h' : more ≠ []) :
    joinLines (ls ++ more) = joinLines ls ++ '\n' :: joinLines more := by
  induction ls with
  | nil => exact absurd rfl h
  | cons line ls ih =>
    cases ls with
    | nil =>
      obtain ⟨next, more, rfl⟩ := List.exists_cons_of_ne_nil h'
      rfl
    | cons second ls =>
      have tail := ih (by simp)
      simpa [joinLines] using tail

/-- Joined texts that are themselves joined from lines are the join of all these lines. -/
theorem joinLines_map_joinLines {α : Type} {f : α → List (List Char)} (filled : ∀ a, f a ≠ [])
    (as : List α) : joinLines (as.map fun a => joinLines (f a)) = joinLines (as.flatMap f) := by
  induction as with
  | nil => rfl
  | cons a as ih =>
    cases as with
    | nil => simp [joinLines]
    | cons b as =>
      have rest : (b :: as).flatMap f ≠ [] := by simp [filled]
      rw [List.map_cons, List.map_cons, joinLines, List.flatMap_cons, joinLines_append (filled a) rest,
        ← ih, List.map_cons]

end Evolution.Text
