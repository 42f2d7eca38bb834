import Evolution.Proofs.Blueprint.Link
import Evolution.Proofs.Blueprint.Notes

/-! Reading a blueprint gives a well-formed program, and the well-formed programs are those that are
read back from their own blueprint. -/

namespace Evolution

open Blueprint Text

/-- The lines of an entry keep apart from their neighbours, and the first shows where it starts. -/
theorem Footnote.WellFormed.lines {note : Footnote} (h : note.WellFormed) :
    (∀ line ∈ note.writtenLines, IsLine line) ∧
      ∃ first more, note.writtenLines = first :: more ∧ opens first = true := by
  have entry := h.isEntry
  cases written : note.writtenLines with
  | nil => exact absurd written note.writtenLines_ne_nil
  | cons first more =>
    rw [written] at entry
    cases entry with
    | intro trimmed opened _ others _ =>
      refine ⟨?_, first, more, rfl, opened⟩
      intro line member
      rcases List.mem_cons.mp member with rfl | member
      · exact trimmed.isLine
      · exact (others line member).1.isLine

namespace Program

/-- The lines of a blueprint: those of the code, then those of the footnotes. -/
def writtenLines (p : Program) : List (List Char) :=
  Point.codeLines 0 p.root ++ p.footnotes.flatMap Footnote.writtenLines

theorem joinLines_writtenLines {p : Program} (h : p.WellFormed) :
    joinLines p.writtenLines = p.written := by
  have code : p.code = joinLines (Point.codeLines 0 p.root) :=
    Point.code_eq_joinLines h.root.spelled
  have notes : p.notes = joinLines (p.footnotes.flatMap Footnote.writtenLines) := by
    rw [notes, ← joinLines_map_joinLines Footnote.writtenLines_ne_nil]
    simp only [Footnote.joinLines_writtenLines]
  rw [writtenLines, written]
  split
  · next none =>
    rw [List.isEmpty_iff.mp none, List.flatMap_nil, List.append_nil, code]
  · next some =>
    have filled : p.footnotes.flatMap Footnote.writtenLines ≠ [] := by
      obtain ⟨note, others, filled⟩ := List.exists_cons_of_ne_nil (mt List.isEmpty_iff.mpr some)
      simp [filled, note.writtenLines_ne_nil]
    rw [joinLines_append (Point.codeLines_ne_nil 0 p.root) filled, code, notes]

theorem lines_written {p : Program} (h : p.WellFormed) : lines p.written = p.writtenLines := by
  rw [← joinLines_writtenLines h]
  apply lines_joinLines
  intro line member
  rcases List.mem_append.mp member with code | note
  · exact (Point.isCodeLine_codeLines h.root.spelled 0 line code).isLine
  · obtain ⟨note, used, written⟩ := List.mem_flatMap.mp note
    exact (h.footnotes note used).lines.1 line written

/-- The first line that opens an entry is the first line of the first footnote. -/
theorem splits_writtenLines {p : Program} (h : p.WellFormed) :
    p.writtenLines.takeWhile (!Footnote.opens ·) = Point.codeLines 0 p.root ∧
      p.writtenLines.dropWhile (!Footnote.opens ·) =
        p.footnotes.flatMap Footnote.writtenLines := by
  have code : ∀ line ∈ Point.codeLines 0 p.root, (!Footnote.opens line) = true := by
    intro line member
    simp [(Point.isCodeLine_codeLines h.root.spelled 0 line member).opens]
  rw [writtenLines, List.takeWhile_append_of_pos code, List.dropWhile_append_of_pos code]
  cases notes : p.footnotes with
  | nil => simp
  | cons note others =>
    obtain ⟨first, more, written, opened⟩ := (h.footnotes note (by simp [notes])).lines.2
    simp [written, opened]

theorem read_written {p : Program} (h : p.WellFormed) : read p.written = .ok p := by
  obtain ⟨code, below⟩ := splits_writtenLines h
  simp only [read, lines_written h, code, below, readNotes_writtenLines h.footnotes,
    readCode_codeLines h.root.spelled]
  rw [footnotes, link_footnotes]

theorem wellFormed_of_read {text : List Char} {p : Program} (h : read text = .ok p) :
    p.WellFormed := by
  simp only [read] at h
  split at h
  · simp at h
  · next more notes section' =>
    split at h
    · simp at h
    · next root code =>
      split at h
      · simp at h
      · next linked unused dealt =>
        obtain rfl := Except.ok.inj h
        have newline : ∀ line ∈ (lines text).dropWhile (!Footnote.opens ·), '\n' ∉ line :=
          fun line member =>
            newline_notMem_of_mem_lines ((List.dropWhile_sublist _).subset member)
        have good := (readNotes_sound section' newline).2
        obtain ⟨same, perm⟩ := link_sound dealt
        have spelled : linked.Spelled := by
          rw [← spelled_unlinked, same, spelled_unlinked]
          exact (readCode_sound code).1
        refine ⟨Point.wellFormed_iff_spelled.mpr ⟨spelled, fun note used => ?_⟩, fun note kept => ?_⟩
        · exact good note (perm.mem_iff.mp (List.mem_append_left unused used))
        · exact good note (perm.mem_iff.mp (List.mem_append_right linked.footnotes kept))

theorem parse_blueprint {p : Program} (h : p.WellFormed) : parse p.blueprint = .ok p := by
  rw [parse, blueprint, String.toList_ofList, read_written h]

/-- Every text that is read gives a well-formed program, a program is read back from its own
blueprint if and only if it is well formed, and so no two programs that can be read share one. -/
theorem parse_blueprint_iff_wellFormed :
    (∀ text p, parse text = .ok p → p.WellFormed) ∧
      (∀ p, parse p.blueprint = .ok p ↔ p.WellFormed) ∧
      (∀ text p, parse text = .ok p → parse p.blueprint = .ok p) ∧
      ∀ text text' p q, parse text = .ok p → parse text' = .ok q →
        p.blueprint = q.blueprint → p = q := by
  refine ⟨fun _ _ => wellFormed_of_read, fun p => ⟨wellFormed_of_read, parse_blueprint⟩,
    fun _ _ h => parse_blueprint (wellFormed_of_read h), ?_⟩
  intro text text' p q hp hq same
  have first := parse_blueprint (wellFormed_of_read hp)
  have second := parse_blueprint (wellFormed_of_read hq)
  rw [same, second] at first
  exact (Except.ok.inj first).symm

/-- Carriage returns, blanks around an entry, a value of two lines, entries out of order and one that
no literal takes. -/
theorem parse_blueprint_of_scattered_entries :
    let text := "block \x7b value «a»\r\n do f value «b»\x7d\n «b» one\r\n  two \n«a»\n«b»\n"
    let p : Program :=
      ⟨.block [.literal ⟨"a", ""⟩, .instruction "f", .literal ⟨"b", "one\ntwo"⟩], [⟨"b", ""⟩]⟩
    parse text = .ok p ∧ p.WellFormed ∧ parse p.blueprint = .ok p := by
  intro text p
  have read : parse text = .ok p := by decide +kernel
  exact ⟨read, parse_blueprint_iff_wellFormed.1 text p read,
    parse_blueprint_iff_wellFormed.2.2.1 text p read⟩

end Program

end Evolution
