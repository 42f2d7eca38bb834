import Evolution.Proofs.Blueprint.Code

/-! The footnote section. A well-formed footnote takes a line for each line of its text, the first
behind the tag; the section's reader puts these lines together again. Linking deals the entries out
to the literals without losing any. -/

namespace Evolution

open Blueprint Text

namespace Footnote

theorem opens_iff {line : List Char} :
    opens line = true ↔ (trim line).head? = some '«' := by
  rw [opens, head?_trim, beq_iff_eq]

/-- The lines of the written form. -/
def writtenLines (note : Footnote) : List (List Char) :=
  if note.text.toList = [] then [note.render]
  else
    let parts := note.text.toList.splitOn '\n'
    ('«' :: note.tag.toList ++ '»' :: ' ' :: parts.headD []) :: parts.tail

theorem writtenLines_ne_nil (note : Footnote) : note.writtenLines ≠ [] := by
  unfold writtenLines
  split <;> simp

theorem joinLines_cons (first : List Char) (more : List (List Char)) (start : List Char) :
    joinLines ((start ++ first) :: more) = start ++ joinLines (first :: more) := by
  cases more <;> simp [joinLines]

theorem joinLines_writtenLines (note : Footnote) : joinLines note.writtenLines = note.render := by
  unfold writtenLines
  split
  · rfl
  · next filled =>
    obtain ⟨first, more, parts⟩ := List.exists_cons_of_ne_nil
      (List.splitOn_ne_nil '\n' note.text.toList)
    have start : '«' :: note.tag.toList ++ '»' :: ' ' :: first =
        ('«' :: note.tag.toList ++ ['»', ' ']) ++ first := by simp
    simp only [parts, List.headD_cons, List.tail_cons]
    rw [start, joinLines_cons, ← parts, joinLines_splitOn]
    simp [render, filled]

/-- A filled line that starts and ends visibly and holds no newline. -/
def IsTrimmedLine (line : List Char) : Prop :=
  line ≠ [] ∧ trim line = line ∧ '\n' ∉ line

theorem IsTrimmedLine.isLine {line : List Char} (h : IsTrimmedLine line) : IsLine line := by
  refine ⟨h.1, h.2.2, ?_⟩
  intro carriage
  exact absurd ((trim_eq_self_iff.mp h.2.1).2 '\r' carriage) (by decide)

/-- The text of an entry as the lines it was put together from. -/
theorem isBody_joinLines {parts : List (List Char)} (lines : ∀ line ∈ parts, IsTrimmedLine line)
    (more : ∀ line ∈ parts.tail, line.head? ≠ some '«') : IsBody (joinLines parts) := by
  by_cases empty : parts = []
  · subst parts
    exact .inl rfl
  · rw [IsBody, splitOn_joinLines empty fun line h => (lines line h).2.2]
    exact .inr ⟨fun line h => ⟨(lines line h).1, (lines line h).2.1⟩, more⟩

/-- A tag in guillemets with a text behind it makes a line that is read as that entry. -/
theorem tagged {name text : List Char} (named : isTypeName name = true) (newline : '\n' ∉ text)
    (last : ∀ c ∈ text.getLast?, isBlank c = false) :
    IsTrimmedLine ('«' :: name ++ '»' :: text) ∧ opens ('«' :: name ++ '»' :: text) = true ∧
      ofLine? ('«' :: name ++ '»' :: text) =
        some ⟨String.ofList name, String.ofList (trim text)⟩ := by
  have plain := isPlain_of_isTypeName named
  have trimmed : trim ('«' :: name ++ '»' :: text) = '«' :: name ++ '»' :: text := by
    refine trim_eq_self_iff.mpr ⟨?_, ?_⟩
    · intro c same
      obtain rfl : '«' = c := by simpa using same
      decide
    · rw [List.getLast?_append_of_ne_nil _ (by simp), List.getLast?_cons]
      intro c same
      cases ending : text.getLast? with
      | none =>
        obtain rfl : '»' = c := by simpa [ending] using same
        decide
      | some d =>
        obtain rfl : d = c := by simpa [ending] using same
        exact last d ending
  refine ⟨⟨by simp, trimmed, ?_⟩, ?_, ?_⟩
  · intro member
    simp only [List.cons_append, List.mem_cons, List.mem_append] at member
    rcases member with same | member | same | member
    · exact absurd same (by decide)
    · exact absurd (plain _ member) (by decide)
    · exact absurd same (by decide)
    · exact newline member
  · rw [opens_iff, trimmed]
    rfl
  · have inside : ∀ c ∈ name, (c != '»') = true := by
      intro c member
      simpa using (plain c member).ne (by decide)
    have stays : '\n' ∉ trim text := fun member => newline (mem_of_mem_trim member)
    rw [ofLine?, trimmed, List.cons_append]
    simp only [List.takeWhile_append_of_pos inside, List.dropWhile_append_of_pos inside]
    simp [named, stays]

/-- Lines of a section that make up one entry: the first opens it, the others go on with it. -/
inductive IsEntry (note : Footnote) : List (List Char) → Prop where
  | intro {first : List Char} {more : List (List Char)} {read : Footnote} :
    IsTrimmedLine first → opens first = true → ofLine? first = some read →
    (∀ line ∈ more, IsTrimmedLine line ∧ line.head? ≠ some '«') → read.extend more = note →
    IsEntry note (first :: more)

theorem WellFormed.isEntry {note : Footnote} (h : note.WellFormed) :
    note.IsEntry note.writtenLines := by
  by_cases empty : note.text.toList = []
  · obtain ⟨trimmed, opened, read⟩ := tagged h.tag (List.not_mem_nil (a := '\n')) (by simp)
    have lines : note.writtenLines = ['«' :: note.tag.toList ++ '»' :: []] := by
      simp [writtenLines, render, empty]
    have text : note.text = "" := by
      rw [← String.toList_inj, empty]
      rfl
    rw [lines]
    refine .intro trimmed opened read (by simp) ?_
    cases note
    simp_all [extend, trim, trimStart, trimEnd, joinLines]
  · obtain ⟨first, more, parts⟩ := List.exists_cons_of_ne_nil
      (List.splitOn_ne_nil '\n' note.text.toList)
    obtain ⟨each, noEntry⟩ := h.text.resolve_left empty
    have trimmedLine : ∀ line ∈ first :: more, IsTrimmedLine line := by
      intro line member
      rw [← parts] at member
      exact ⟨(each line member).1, (each line member).2, newline_notMem_of_mem_splitOn member⟩
    obtain ⟨filled, trimmedFirst, newline⟩ := trimmedLine first (by simp)
    have last : ∀ c ∈ (' ' :: first).getLast?, isBlank c = false := by
      have ending := (trim_eq_self_iff.mp trimmedFirst).2
      rw [List.getLast?_eq_some_getLast filled] at ending
      rw [List.getLast?_cons, List.getLast?_eq_some_getLast filled]
      exact ending
    have text : trim (' ' :: first) = first := trimmedFirst
    obtain ⟨trimmed, opened, read⟩ := tagged h.tag (by simpa using newline) last
    have lines : note.writtenLines =
        ('«' :: note.tag.toList ++ '»' :: ' ' :: first) :: more := by
      simp [writtenLines, empty, parts]
    rw [lines]
    rw [parts] at noEntry
    refine .intro trimmed opened read
      (fun line member => ⟨trimmedLine line (List.mem_cons_of_mem first member),
        noEntry line member⟩) ?_
    have whole : joinLines (first :: more) = note.text.toList := by
      rw [← parts, joinLines_splitOn]
    simp [extend, text, filled, whole]

end Footnote

namespace Blueprint

open Footnote

theorem readNotes_entry {line : Nat} {text : List Char} {rest more : List (List Char)}
    {note : Footnote} {notes : List Footnote} (opened : opens text = true)
    (read : ofLine? text = some note) (below : readNotes (line + 1) rest = .ok (more, notes)) :
    readNotes line (text :: rest) = .ok ([], note.extend more :: notes) := by
  simp [readNotes, opened, readEntry, read, below, bind, Except.bind, pure, Except.pure]

theorem readNotes_more {line : Nat} {text : List Char} {rest more : List (List Char)}
    {notes : List Footnote} (opened : opens text = false)
    (below : readNotes (line + 1) rest = .ok (more, notes)) :
    readNotes line (text :: rest) =
      .ok (if (trim text).isEmpty then more else trim text :: more, notes) := by
  simp [readNotes, opened, below, bind, Except.bind, pure, Except.pure]

/-- What the reader does with the first line, whatever comes of the lines below it. -/
theorem readNotes_cons {line : Nat} {text : List Char} {rest : List (List Char)}
    {result : List (List Char) × List Footnote} (read : readNotes line (text :: rest) = .ok result) :
    ∃ more notes, readNotes (line + 1) rest = .ok (more, notes) ∧
      ((∃ note, opens text = true ∧ ofLine? text = some note ∧
          result = ([], note.extend more :: notes)) ∨
        opens text = false ∧ result = (if (trim text).isEmpty then more else trim text :: more,
          notes)) := by
  cases below : readNotes (line + 1) rest with
  | error e =>
    simp only [readNotes, below, bind, Except.bind] at read
    split at read
    · cases entry : readEntry line text <;> simp [entry] at read
    · simp at read
  | ok found =>
    obtain ⟨more, notes⟩ := found
    refine ⟨more, notes, rfl, ?_⟩
    cases opened : opens text with
    | true =>
      cases entry : ofLine? text with
      | none => simp [readNotes, opened, readEntry, entry, bind, Except.bind] at read
      | some note =>
        rw [readNotes_entry opened entry below] at read
        exact .inl ⟨note, rfl, rfl, (Except.ok.inj read).symm⟩
    | false =>
      rw [readNotes_more opened below] at read
      exact .inr ⟨rfl, (Except.ok.inj read).symm⟩

/-- Lines before the next entry are handed up, as far as there is something to be seen of them. -/
theorem readNotes_lead {lead rest : List (List Char)} {notes : List Footnote}
    (none : ∀ line ∈ lead, opens line = false) (below : ∀ n, readNotes n rest = .ok ([], notes))
    (line : Nat) :
    readNotes line (lead ++ rest) = .ok ((lead.map trim).filter (· ≠ []), notes) := by
  induction lead generalizing line with
  | nil => exact below line
  | cons text lead ih =>
    obtain ⟨first, others⟩ := List.forall_mem_cons.mp none
    rw [List.cons_append, readNotes_more first (ih others (line + 1))]
    by_cases blank : trim text = [] <;> simp [blank]

/-- Lines that go on with an entry are handed up to it. -/
theorem readNotes_append {more rest : List (List Char)} {notes : List Footnote}
    (lines : ∀ line ∈ more, IsTrimmedLine line ∧ line.head? ≠ some '«')
    (below : ∀ n, readNotes n rest = .ok ([], notes)) (line : Nat) :
    readNotes line (more ++ rest) = .ok (more, notes) := by
  have none : ∀ line ∈ more, opens line = false := by
    intro line member
    obtain ⟨⟨-, trimmed, -⟩, noEntry⟩ := lines line member
    rw [Bool.eq_false_iff, ne_eq, opens_iff, trimmed]
    exact noEntry
  have trimmed : more.map trim = more :=
    (List.map_congr_left fun line member => (lines line member).1.2.1).trans (List.map_id more)
  have filled : more.filter (· ≠ []) = more := by
    rw [List.filter_eq_self]
    exact fun line member => decide_eq_true (lines line member).1.1
  rw [readNotes_lead none below, trimmed, filled]

/-- The lines of well-formed footnotes are read as these footnotes, wherever they stand. -/
theorem readNotes_writtenLines {notes : List Footnote} (h : ∀ note ∈ notes, note.WellFormed)
    (line : Nat) : readNotes line (notes.flatMap writtenLines) = .ok ([], notes) := by
  induction notes generalizing line with
  | nil => rfl
  | cons note notes ih =>
    have below := ih fun n hn => h n (List.mem_cons_of_mem note hn)
    have entry := (h note (by simp)).isEntry
    rw [List.flatMap_cons]
    cases lines : note.writtenLines with
    | nil => exact absurd lines note.writtenLines_ne_nil
    | cons first more =>
      rw [lines] at entry
      cases entry with
      | intro trimmed opened read others whole =>
        rw [List.cons_append, readNotes_entry opened read (readNotes_append others below _), whole]

theorem ofLine?_sound {line : List Char} {note : Footnote} (read : ofLine? line = some note) :
    isTypeName note.tag.toList = true ∧ trim note.text.toList = note.text.toList ∧
      '\n' ∉ note.text.toList := by
  unfold ofLine? at read
  split at read
  · simp only at read
    split at read
    · simp at read
    · split at read
      · next valid =>
        obtain rfl := Option.some.inj read
        simp only [Bool.and_eq_true, Bool.not_eq_true', List.contains_eq_mem,
          decide_eq_false_iff_not] at valid
        simpa [trim_trim] using valid
      · simp at read
  · simp at read

theorem wellFormed_extend {line : List Char} {note : Footnote} {more : List (List Char)}
    (read : ofLine? line = some note)
    (lines : ∀ line ∈ more, IsTrimmedLine line ∧ line.head? ≠ some '«') :
    (note.extend more).WellFormed := by
  obtain ⟨named, trimmed, newline⟩ := ofLine?_sound read
  refine ⟨named, ?_⟩
  simp only [extend, String.toList_ofList, List.isEmpty_iff]
  split
  · exact isBody_joinLines (fun l hl => (lines l hl).1)
      fun l hl => (lines l (List.mem_of_mem_tail hl)).2
  · next filled =>
    refine isBody_joinLines ?_ fun l hl => (lines l hl).2
    intro l hl
    rcases List.mem_cons.mp hl with rfl | hl
    · exact ⟨filled, trimmed, newline⟩
    · exact (lines l hl).1

/-- Whatever section is read, its entries are well formed. -/
theorem readNotes_sound {line : Nat} {ls more : List (List Char)} {notes : List Footnote}
    (read : readNotes line ls = .ok (more, notes)) (newline : ∀ l ∈ ls, '\n' ∉ l) :
    (∀ l ∈ more, IsTrimmedLine l ∧ l.head? ≠ some '«') ∧ ∀ note ∈ notes, note.WellFormed := by
  induction ls generalizing line more notes with
  | nil =>
    cases read
    simp
  | cons text rest ih =>
    obtain ⟨below, others, next, result⟩ := readNotes_cons read
    obtain ⟨lines, good⟩ := ih next fun l hl => newline l (List.mem_cons_of_mem text hl)
    rcases result with ⟨note, _, entry, same⟩ | ⟨opened, same⟩
    · obtain ⟨rfl, rfl⟩ := Prod.mk.inj same
      refine ⟨by simp, ?_⟩
      intro n hn
      rcases List.mem_cons.mp hn with rfl | hn
      · exact wellFormed_extend entry lines
      · exact good n hn
    · obtain ⟨rfl, rfl⟩ := Prod.mk.inj same
      refine ⟨?_, good⟩
      split
      · exact lines
      · next filled =>
        intro l hl
        rcases List.mem_cons.mp hl with rfl | hl
        · refine ⟨⟨by simpa using filled, trim_trim text,
            fun member => newline text (by simp) (mem_of_mem_trim member)⟩, ?_⟩
          rw [Bool.eq_false_iff, ne_eq, opens_iff] at opened
          exact opened
        · exact lines l hl

end Blueprint

end Evolution
