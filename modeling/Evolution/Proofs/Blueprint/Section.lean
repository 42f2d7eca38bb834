import Evolution.Proofs.Blueprint.Diagnosis
import Evolution.Proofs.Blueprint.Notes
import Evolution.Proofs.Blueprint.Pool
import Mathlib

/-!
The footnote section, line by line. A line that opens an entry has to be a tag with a text; the
reader blames the first that is not, under its number in the whole text and before it looks at the
code. Otherwise the entries are the lines with tags, each with the visible lines behind it.
-/

namespace Evolution

namespace Text

def IsLetter (c : Char) : Prop := 'A' ≤ c ∧ c ≤ 'Z' ∨ 'a' ≤ c ∧ c ≤ 'z'

theorem isTypeName_iff {name : List Char} : isTypeName name = true ↔
    ∃ first rest, name = first :: rest ∧ IsLetter first ∧
      ∀ c ∈ rest, IsLetter c ∨ '0' ≤ c ∧ c ≤ '9' ∨ c = '_' := by
  have letter (c : Char) : c.isAlpha = true ↔ IsLetter c := by
    simp [Char.isAlpha, Char.isUpper, Char.isLower, IsLetter, Char.le_def, UInt32.le_iff_toNat_le]
  have digit (c : Char) : c.isDigit = true ↔ '0' ≤ c ∧ c ≤ '9' := by
    simp [Char.isDigit, Char.le_def, UInt32.le_iff_toNat_le]
  cases name with
  | nil => simp [isTypeName]
  | cons c rest =>
    simp [isTypeName, isIdentifierTail, Char.isAlphanum, letter, digit, or_assoc]

end Text

namespace Footnote

open Text

/-- The line shows the mark of an entry first. -/
def OpensEntry (line : List Char) : Prop := (trim line).head? = some '«'

/-- The line is a tag in guillemets and a text behind it, which may be empty. -/
def IsTagged (line name text : List Char) : Prop :=
  trim line = '«' :: name ++ '»' :: text ∧
    ∃ first rest, name = first :: rest ∧ IsLetter first ∧
      ∀ c ∈ rest, IsLetter c ∨ '0' ≤ c ∧ c ≤ '9' ∨ c = '_'

/-- The line starts like an entry and is none. -/
def Offends (line : List Char) : Prop := OpensEntry line ∧ ¬∃ name text, IsTagged line name text

/-- What is to be seen of lines, without blanks around it. -/
def visible (lines : List (List Char)) : List (List Char) := (lines.map trim).filter (· ≠ [])

/-- A section and its entries: each has a line with its tag and the lines up to the next such line,
and its text is what is to be seen of them, behind the tag. -/
inductive Spells : List (List Char) → List Footnote → Prop where
  | nil : Spells [] []
  | entry {first name text : List Char} {more rest : List (List Char)} {notes : List Footnote} :
    IsTagged first name text → (∀ line ∈ more, ¬OpensEntry line) → Spells rest notes →
    Spells (first :: more ++ rest)
      (⟨String.ofList name, String.ofList (joinLines (visible (text :: more)))⟩ :: notes)

variable {line name text : List Char}

theorem opens_iff_opensEntry : opens line = true ↔ OpensEntry line := opens_iff

theorem IsTagged.opensEntry (h : IsTagged line name text) : OpensEntry line := by
  rw [OpensEntry, h.1]
  rfl

theorem ofLine?_trim (line : List Char) : ofLine? (trim line) = ofLine? line := by
  rw [ofLine?, ofLine?, trim_trim]

theorem ofLine?_eq_some_iff (newline : '\n' ∉ line) {note : Footnote} :
    ofLine? line = some note ↔ ∃ name text, IsTagged line name text ∧
      note = ⟨String.ofList name, String.ofList (trim text)⟩ := by
  constructor
  · intro read
    have named := (Blueprint.ofLine?_sound read).1
    unfold ofLine? at read
    split at read
    · next rest shown =>
      simp only at read
      split at read
      · simp at read
      · next mark tail split =>
        split at read
        · obtain rfl := Option.some.inj read
          have closes : mark = '»' := by
            have := List.head_dropWhile_not (· != '»') (l := rest) (by simp [split])
            simpa [split] using this
          subst closes
          refine ⟨rest.takeWhile (· != '»'), tail, ⟨?_, isTypeName_iff.mp (by simpa using named)⟩, rfl⟩
          rw [shown, List.cons_append, ← split, List.takeWhile_append_dropWhile]
        · simp at read
    · simp at read
  · rintro ⟨name, text, ⟨shown, named⟩, rfl⟩
    have stays : '\n' ∉ text := fun member =>
      newline (mem_of_mem_trim (show '\n' ∈ trim line by rw [shown]; simp [member]))
    have last : ∀ c ∈ text.getLast?, isBlank c = false := by
      intro c ending
      have trimmed := (trim_eq_self_iff.mp (trim_trim line)).2 c
      rw [shown, List.getLast?_append_of_ne_nil _ (by simp), List.getLast?_cons, ending] at trimmed
      exact trimmed rfl
    rw [← ofLine?_trim, shown]
    exact (tagged (isTypeName_iff.mpr named) stays last).2.2

/-- Every line of a section that has entries is in order. -/
theorem Spells.not_offends {lines : List (List Char)} {notes : List Footnote}
    (h : Spells lines notes) : ∀ line ∈ lines, ¬Offends line := by
  induction h with
  | nil => simp
  | entry tagged none _ ih =>
    intro line member bad
    rcases List.mem_append.mp member with member | member
    · rcases List.mem_cons.mp member with rfl | member
      · exact bad.2 ⟨_, _, tagged⟩
      · exact none line member bad.1
    · exact ih line member bad

theorem extend_of_isTagged (name text : List Char) (more : List (List Char)) :
    (⟨String.ofList name, String.ofList (trim text)⟩ : Footnote).extend (visible more) =
      ⟨String.ofList name, String.ofList (joinLines (visible (text :: more)))⟩ := by
  by_cases empty : trim text = [] <;> simp [extend, visible, empty]

end Footnote

namespace Blueprint

open Footnote Text

variable {ls rest : List (List Char)} {notes : List Footnote}

theorem readNotes_of_spells (spelled : Spells ls notes) (newline : ∀ l ∈ ls, '\n' ∉ l) (line : Nat) :
    readNotes line ls = .ok ([], notes) := by
  induction spelled generalizing line with
  | nil => rfl
  | @entry first name text more rest notes tagged none _ ih =>
    have none' : ∀ line ∈ more, opens line = false := fun line member =>
      Bool.eq_false_iff.mpr (mt opens_iff_opensEntry.mp (none line member))
    have below : ∀ n, readNotes n (more ++ rest) = .ok (visible more, notes) :=
      readNotes_lead none' (ih fun l member => newline l (by simp [member]))
    have read := (ofLine?_eq_some_iff (newline first (by simp))).mpr ⟨name, text, tagged, rfl⟩
    rw [List.cons_append,
      readNotes_entry (opens_iff_opensEntry.mpr tagged.opensEntry) read (below (line + 1)),
      extend_of_isTagged]

theorem spells_of_readNotes {line : Nat} {more : List (List Char)} (newline : ∀ l ∈ ls, '\n' ∉ l)
    (read : readNotes line ls = .ok (more, notes)) :
    ∃ lead rest, ls = lead ++ rest ∧ (∀ l ∈ lead, ¬OpensEntry l) ∧ more = visible lead ∧
      Spells rest notes := by
  induction ls generalizing line more notes with
  | nil =>
    cases read
    exact ⟨[], [], rfl, by simp, rfl, .nil⟩
  | cons text ls ih =>
    obtain ⟨first, others⟩ := List.forall_mem_cons.mp newline
    obtain ⟨below, found, next, result⟩ := readNotes_cons read
    obtain ⟨lead, rest, rfl, none, rfl, spelled⟩ := ih others next
    rcases result with ⟨note, opened, entry, same⟩ | ⟨opened, same⟩
    · obtain ⟨rfl, rfl⟩ := Prod.mk.inj same
      obtain ⟨name, value, tagged, rfl⟩ := (ofLine?_eq_some_iff first).mp entry
      rw [extend_of_isTagged]
      exact ⟨[], _, rfl, by simp, rfl, .entry tagged none spelled⟩
    · obtain ⟨rfl, rfl⟩ := Prod.mk.inj same
      have plain : ¬OpensEntry text := mt opens_iff_opensEntry.mpr (by simp [opened])
      refine ⟨text :: lead, rest, rfl, List.forall_mem_cons.mpr ⟨plain, none⟩, ?_, spelled⟩
      by_cases blank : trim text = [] <;> simp [visible, blank]

/-- What comes of the first line and the lines below it when they cannot be read. -/
theorem readNotes_cons_eq_error_iff {line : Nat} {text : List Char} (newline : '\n' ∉ text)
    {e : ParseError} : readNotes line (text :: rest) = .error e ↔
      Offends text ∧ e = .malformedFootnote line (String.ofList (trim text)) ∨
        ¬Offends text ∧ readNotes (line + 1) rest = .error e := by
  cases opened : opens text with
  | false =>
    have plain : ¬Offends text := fun bad => by
      simp [opens_iff_opensEntry.mpr bad.1] at opened
    cases below : readNotes (line + 1) rest <;>
      simp [readNotes, opened, below, plain, bind, Except.bind, pure, Except.pure]
  | true =>
    have starts := opens_iff_opensEntry.mp opened
    cases read : ofLine? text with
    | none =>
      have bad : Offends text := by
        refine ⟨starts, ?_⟩
        rintro ⟨name, value, tagged⟩
        simp [(ofLine?_eq_some_iff newline).mpr ⟨name, value, tagged, rfl⟩] at read
      simp [readNotes, opened, readEntry, read, bad, bind, Except.bind, eq_comm]
    | some note =>
      have fine : ¬Offends text := fun bad => by
        obtain ⟨name, value, tagged, -⟩ := (ofLine?_eq_some_iff newline).mp read
        exact bad.2 ⟨name, value, tagged⟩
      cases below : readNotes (line + 1) rest <;>
        simp [readNotes, opened, readEntry, read, below, fine, bind, Except.bind, pure, Except.pure]

/-- The reader blames the first line that starts like an entry and is none. -/
theorem readNotes_eq_error_iff {line : Nat} (newline : ∀ l ∈ ls, '\n' ∉ l) {e : ParseError} :
    readNotes line ls = .error e ↔ ∃ before bad after, ls = before ++ bad :: after ∧
      (∀ l ∈ before, ¬Offends l) ∧ Offends bad ∧
        e = .malformedFootnote (line + before.length) (String.ofList (trim bad)) := by
  induction ls generalizing line with
  | nil => simp [readNotes]
  | cons text rest ih =>
    obtain ⟨first, others⟩ := List.forall_mem_cons.mp newline
    rw [readNotes_cons_eq_error_iff first, ih others]
    constructor
    · rintro (⟨bad, rfl⟩ | ⟨fine, before, bad, after, rfl, good, offends, rfl⟩)
      · exact ⟨[], text, rest, rfl, by simp, bad, rfl⟩
      · refine ⟨text :: before, bad, after, rfl, List.forall_mem_cons.mpr ⟨fine, good⟩, offends, ?_⟩
        rw [List.length_cons, Nat.add_assoc, Nat.add_comm 1]
    · rintro ⟨before, bad, after, split, good, offends, rfl⟩
      cases before with
      | nil =>
        obtain ⟨rfl, rfl⟩ := List.cons.inj split
        exact .inl ⟨offends, rfl⟩
      | cons head before =>
        obtain ⟨rfl, rfl⟩ := List.cons.inj split
        obtain ⟨fine, good⟩ := List.forall_mem_cons.mp good
        refine .inr ⟨fine, before, bad, after, rfl, good, offends, ?_⟩
        rw [List.length_cons, Nat.add_assoc, Nat.add_comm 1]

end Blueprint

namespace Program

open Blueprint Footnote Text

theorem codeSection_append_noteSection (text : String) :
    codeSection text ++ noteSection text = lines text.toList :=
  List.takeWhile_append_dropWhile

theorem not_opensEntry_of_mem_codeSection {text : String} {line : List Char}
    (member : line ∈ codeSection text) : ¬OpensEntry line := by
  have before := List.mem_takeWhile_imp member
  rw [← opens_iff_opensEntry]
  simpa using before

theorem opensEntry_of_mem_head? {text : String} :
    ∀ line ∈ (noteSection text).head?, OpensEntry line := by
  intro line head
  have first := List.head?_dropWhile_not (!opens ·) (lines text.toList)
  rw [show (lines text.toList).dropWhile (!opens ·) = noteSection text from rfl,
    Option.mem_def.mp head] at first
  rw [← opens_iff_opensEntry]
  simpa using first

theorem newline_notMem_of_mem_noteSection {text : String} :
    ∀ line ∈ noteSection text, '\n' ∉ line :=
  fun _ member => newline_notMem_of_mem_lines ((List.dropWhile_sublist _).subset member)

theorem entries_eq_ok_iff {text : String} {notes : List Footnote} :
    entries text = .ok notes ↔ Spells (noteSection text) notes := by
  have newline : ∀ line ∈ noteSection text, '\n' ∉ line := newline_notMem_of_mem_noteSection
  constructor
  · intro read
    rw [entries] at read
    cases found : readNotes ((codeSection text).length + 1) (noteSection text) with
    | error e => simp [found, Except.map] at read
    | ok result =>
      obtain ⟨more, notes'⟩ := result
      obtain rfl : notes' = notes := by simpa [found, Except.map] using read
      obtain ⟨lead, rest, split, none, -, spelled⟩ := spells_of_readNotes newline found
      -- The section starts with an entry, so no line of it stands before the first.
      cases lead with
      | nil => exact split ▸ spelled
      | cons line lead =>
        have head : line ∈ (noteSection text).head? := by simp [split]
        exact absurd (opensEntry_of_mem_head? line head) (none line (by simp))
  · intro spelled
    rw [entries, readNotes_of_spells spelled newline]
    rfl

theorem entries_eq_error_iff {text : String} {e : ParseError} :
    entries text = .error e ↔ ∃ before bad after, lines text.toList = before ++ bad :: after ∧
      (∀ l ∈ before, ¬Offends l) ∧ Offends bad ∧
        e = .malformedFootnote (before.length + 1) (String.ofList (trim bad)) := by
  have failed : entries text = .error e ↔
      readNotes ((codeSection text).length + 1) (noteSection text) = .error e := by
    rw [entries]
    cases readNotes ((codeSection text).length + 1) (noteSection text) <;> simp [Except.map]
  have code : ∀ l ∈ codeSection text, ¬Offends l :=
    fun l member bad => not_opensEntry_of_mem_codeSection member bad.1
  rw [failed, readNotes_eq_error_iff newline_notMem_of_mem_noteSection,
    ← codeSection_append_noteSection]
  constructor
  · rintro ⟨before, bad, after, split, good, offends, rfl⟩
    refine ⟨codeSection text ++ before, bad, after, by rw [split, List.append_assoc], ?_, offends, ?_⟩
    · intro l member
      rcases List.mem_append.mp member with member | member
      · exact code l member
      · exact good l member
    · rw [List.length_append, Nat.add_right_comm]
  · rintro ⟨before, bad, after, split, good, offends, rfl⟩
    rcases List.append_eq_append_iff.mp split with ⟨middle, rfl, split⟩ | ⟨middle, same, split⟩
    · refine ⟨middle, bad, after, List.append_cancel_left (split.trans (by simp)),
        fun l member => good l (by simp [member]), offends, ?_⟩
      rw [List.length_append, Nat.add_right_comm]
    · cases middle with
      | nil =>
        rw [List.append_nil] at same
        exact ⟨[], bad, after, split.symm, by simp, offends, by rw [same]; rfl⟩
      | cons head middle =>
        obtain ⟨rfl, -⟩ := List.cons.inj split
        exact absurd offends (code bad (by simp [same]))

theorem parse_eq_malformedFootnote_iff {text : String} {n : Nat} {s : String} :
    parse text = .error (.malformedFootnote n s) ↔ entries text = .error (.malformedFootnote n s) := by
  rw [parse_eq_link]
  cases entries text with
  | error e => simp [Except.bind]
  | ok notes =>
    simp only [Except.bind, reduceCtorEq, iff_false]
    cases code : codeTree text with
    | error e =>
      rintro ⟨⟩
      exact readTokens_diagnosis (Token.isRead_ofChars _) code
    | ok root =>
      simp only
      cases linked : link root notes with
      | error e =>
        rintro ⟨⟩
        obtain ⟨type, same, -⟩ := deal_eq_error_iff.mp (link_eq_error_iff.mp linked)
        cases same
      | ok found => simp [Except.map]

theorem exists_entries_iff {text : String} :
    (∃ notes, entries text = .ok notes) ↔ ∀ line ∈ noteSection text, ¬Offends line := by
  constructor
  · rintro ⟨notes, read⟩
    exact (entries_eq_ok_iff.mp read).not_offends
  · intro good
    cases read : entries text with
    | ok notes => exact ⟨notes, rfl⟩
    | error e =>
      obtain ⟨before, bad, after, split, -, offends, -⟩ := entries_eq_error_iff.mp read
      have member : bad ∈ codeSection text ++ noteSection text := by
        simp [codeSection_append_noteSection, split]
      rcases List.mem_append.mp member with code | below
      · exact absurd offends.1 (not_opensEntry_of_mem_codeSection code)
      · exact absurd offends (good bad below)

/-- The footnote section starts at the first line that shows the mark of an entry. It is read exactly
if every such line in it is a tag with a text, its entries are then what these lines and the ones
behind them spell, and they become the footnotes of the program. Otherwise the first line that is no
entry is reported, with its number in the whole text, whatever is wrong with the code or with the
literals. -/
theorem parse_reads_footnotes (text : String) :
    (lines text.toList = codeSection text ++ noteSection text ∧
      (∀ line ∈ codeSection text, ¬OpensEntry line) ∧
      ∀ line ∈ (noteSection text).head?, OpensEntry line) ∧
    ((∃ notes, entries text = .ok notes) ↔
      ∀ line ∈ noteSection text, OpensEntry line → ∃ name value, IsTagged line name value) ∧
    (∀ notes, entries text = .ok notes ↔ Spells (noteSection text) notes) ∧
    (∀ p, parse text = .ok p → ∃ notes, entries text = .ok notes ∧ p.footnotes.Perm notes) ∧
    ((¬∃ notes, entries text = .ok notes) ↔ ∃ n s, parse text = .error (.malformedFootnote n s)) ∧
    ∀ n s, parse text = .error (.malformedFootnote n s) ↔
      ∃ before bad after, lines text.toList = before ++ bad :: after ∧
        (∀ l ∈ before, ¬Offends l) ∧ Offends bad ∧
        n = before.length + 1 ∧ s = String.ofList (trim bad) := by
  have fine (line : List Char) : ¬Offends line ↔
      (OpensEntry line → ∃ name value, IsTagged line name value) := not_and_not_right
  refine ⟨⟨codeSection_append_noteSection text |>.symm, fun _ => not_opensEntry_of_mem_codeSection,
    opensEntry_of_mem_head?⟩, ?_, fun _ => entries_eq_ok_iff, ?_, ?_, fun n s => ?_⟩
  · simp only [exists_entries_iff, fine]
  · intro p read
    obtain ⟨root, notes, -, below, linked⟩ := parse_eq_ok_iff.mp read
    exact ⟨notes, below, (link_sound linked).2⟩
  · simp only [parse_eq_malformedFootnote_iff]
    cases read : entries text with
    | ok notes => simp
    | error e =>
      obtain ⟨_, _, _, -, -, -, rfl⟩ := entries_eq_error_iff.mp read
      simp
  · rw [parse_eq_malformedFootnote_iff, entries_eq_error_iff]
    simp only [ParseError.malformedFootnote.injEq]

/-- Entries that start behind their tag, go on after a blank line or hold a carriage return; and a text
with a block that stays open and two bad lines, of which the first is reported. -/
theorem parse_reads_footnotes_over_lines :
    let text := "block \x7b value «b» value «a» \x7d\n  «a»\r\n\n one \r \n two\rthree\n\t«b» 1 «x»\n"
    let notes : List Footnote := [⟨"a", "one\ntwo\rthree"⟩, ⟨"b", "1 «x»"⟩]
    let p : Program := ⟨.block [.literal ⟨"b", "1 «x»"⟩, .literal ⟨"a", "one\ntwo\rthree"⟩], []⟩
    let open' := "block \x7b\n\n«a» 1\n two\r\n «1b» 5 \n«c\n"
    entries text = .ok notes ∧ Spells (noteSection text) notes ∧
      parse text = .ok p ∧ (∃ found, entries text = .ok found ∧ p.footnotes.Perm found) ∧
      parse open' = .error (.malformedFootnote 5 "«1b» 5") ∧
      ∃ before bad after, lines open'.toList = before ++ bad :: after ∧
        (∀ l ∈ before, ¬Offends l) ∧ Offends bad ∧
        5 = before.length + 1 ∧ "«1b» 5" = String.ofList (trim bad) := by
  intro text notes p open'
  have read : entries text = .ok notes := by decide +kernel
  have parsed : parse text = .ok p := by decide +kernel
  have refused : parse open' = .error (.malformedFootnote 5 "«1b» 5") := by decide +kernel
  obtain ⟨-, -, spelled, used, -⟩ := parse_reads_footnotes text
  obtain ⟨-, -, -, -, -, blamed⟩ := parse_reads_footnotes open'
  exact ⟨read, (spelled notes).mp read, parsed, used p parsed, refused, (blamed 5 _).mp refused⟩

end Program

end Evolution
