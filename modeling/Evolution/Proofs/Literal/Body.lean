import Evolution.Point.Layout
import Evolution.Proofs.Blueprint.Layout

/-! Texts of one line that a footnote can hold: plain ones, and the code of a tree on a single line. -/

namespace Evolution

open Text

/-- A line whose ends are visible. -/
def Text.IsFramed (line : List Char) : Prop :=
  '\n' ∉ line ∧ (∃ c ∈ line.head?, isBlank c = false) ∧ ∃ c ∈ line.getLast?, isBlank c = false

theorem Text.IsFramed.ne_nil {line : List Char} (h : IsFramed line) : line ≠ [] := by
  obtain ⟨-, ⟨first, head, -⟩, -⟩ := h
  rintro rfl
  simp at head

theorem Text.IsFramed.trim_eq {line : List Char} (h : IsFramed line) : trim line = line := by
  obtain ⟨-, ⟨first, head, visible⟩, last, ending, shown⟩ := h
  refine trim_eq_self_iff.mpr ⟨?_, ?_⟩
  · intro c same
    obtain rfl := Option.mem_unique head same
    exact visible
  · intro c same
    obtain rfl := Option.mem_unique ending same
    exact shown

theorem Text.IsFramed.isBody {line : List Char} (h : IsFramed line) : IsBody line := by
  have alone : line.splitOn '\n' = [line] := List.splitOn_eq_singleton h.1
  refine .inr ⟨?_, by simp [alone]⟩
  rw [alone, List.forall_mem_singleton]
  exact ⟨h.ne_nil, h.trim_eq⟩

theorem Text.isFramed_of_isPlain {text : List Char} (filled : text ≠ [])
    (plain : ∀ c ∈ text, IsPlain c) : IsFramed text := by
  refine ⟨fun member => absurd (plain _ member) (by decide), ?_, ?_⟩
  · exact ⟨text.head filled, List.head?_eq_some_head filled,
      (plain _ (List.head_mem filled)).isBlank⟩
  · exact ⟨text.getLast filled, List.getLast?_eq_some_getLast filled,
      (plain _ (List.getLast_mem filled)).isBlank⟩

/-- A keyword before a blank and a word. -/
theorem Text.isFramed_keyword {keyword text : List Char} (first : IsWord keyword)
    (second : IsWord text) : IsFramed (keyword ++ ' ' :: text) := by
  obtain ⟨c, rest, rfl⟩ := List.exists_cons_of_ne_nil first.1
  obtain ⟨d, last, visible⟩ := second.last
  refine ⟨?_, ⟨c, rfl, (first.2 c (by simp)).1⟩, d, ?_, visible⟩
  · intro member
    rcases List.mem_append.mp member with member | member
    · exact first.newline member
    · rcases List.mem_cons.mp member with same | member
      · exact absurd same (by decide)
      · exact second.newline member
  · rw [List.getLast?_append_of_ne_nil _ (by simp), List.getLast?_cons, Option.mem_def.mp last]
    rfl

namespace Point

theorem compact_block (inner : List Point) :
    (Point.block inner).compact = "block \x7b".toList ++ compacts inner := rfl

theorem compact_literal (note : Footnote) :
    (Point.literal note).compact = "value".toList ++ ' ' :: ('«' :: note.tag.toList ++ ['»']) := rfl

theorem newline_notMem_compacts {ps : List Point} (h : ∀ p ∈ ps, '\n' ∉ p.compact) :
    '\n' ∉ compacts ps := by
  induction ps with
  | nil => decide
  | cons p rest ih =>
    have first := h p (by simp)
    cases rest with
    | nil => simp [compacts, first]
    | cons q rest =>
      have others := ih fun p hp => h p (List.mem_cons_of_mem _ hp)
      simp [compacts, first, others]

theorem getLast?_compacts (ps : List Point) : (compacts ps).getLast? = some '\x7d' := by
  induction ps with
  | nil => rfl
  | cons p rest ih =>
    cases rest with
    | nil =>
      rw [compacts, List.getLast?_append_of_ne_nil _ (by decide)]
      rfl
    | cons q rest =>
      have filled : compacts (q :: rest) ≠ [] := by
        intro empty
        simp [empty] at ih
      rw [compacts, List.getLast?_append_of_ne_nil _ filled, ih]

theorem isFramed_compact {p : Point} (h : p.Spelled) : IsFramed p.compact := by
  induction p with
  | block inner ih =>
    rw [spelled_block] at h
    have contents := newline_notMem_compacts fun p hp => (ih p hp (h p hp)).1
    have filled : compacts inner ≠ [] := by
      intro empty
      have := getLast?_compacts inner
      simp [empty] at this
    rw [compact_block]
    refine ⟨?_, ⟨'b', rfl, by decide⟩, '\x7d', ?_, by decide⟩
    · intro member
      rcases List.mem_append.mp member with member | member
      · exact absurd member (by decide)
      · exact contents member
    · rw [List.getLast?_append_of_ne_nil _ filled, getLast?_compacts]
      rfl
  | instruction name =>
    have keyword : IsWord "do".toList := by decide
    exact isFramed_keyword keyword (spelled_instruction.mp h).1
  | reference name =>
    have keyword : IsWord "ref".toList := by decide
    exact isFramed_keyword keyword (spelled_reference.mp h).1
  | literal note =>
    have keyword : IsWord "value".toList := by decide
    rw [compact_literal]
    exact isFramed_keyword keyword (isWord_tag (spelled_literal.mp h))

end Point

end Evolution
