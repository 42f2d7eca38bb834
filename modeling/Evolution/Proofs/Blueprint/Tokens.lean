import Evolution.Proofs.Blueprint.WellFormed
import Evolution.Proofs.Text.Lines

/-! Tokens of laid-out code. Blanks part what stands on either side of them, so code may be cut into
lines and read line by line; the lines of a tree give the tokens of the tree. -/

namespace Evolution.Blueprint.Token

open Text

theorem cons_append (run : List Char) (ts us : List Token) :
    cons run ts ++ us = cons run (ts ++ us) := by
  unfold cons
  split <;> rfl

theorem scan_cons_blank {c : Char} (blank : isBlank c = true) (rest : List Char) :
    scan (c :: rest) = ([], ofChars rest) := by
  have noOpen : c ≠ '\x7b' := by rintro rfl; exact absurd blank (by decide)
  have noClose : c ≠ '\x7d' := by rintro rfl; exact absurd blank (by decide)
  simp [scan, ofChars, noOpen, noClose, blank]

theorem ofChars_cons_blank {c : Char} (blank : isBlank c = true) (rest : List Char) :
    ofChars (c :: rest) = ofChars rest := by
  rw [ofChars, scan_cons_blank blank]
  rfl

theorem scan_append_blank {c : Char} (blank : isBlank c = true) (before after : List Char) :
    scan (before ++ c :: after) = ((scan before).1, (scan before).2 ++ ofChars after) := by
  induction before with
  | nil => simp [scan_cons_blank blank, scan]
  | cons d before ih =>
    simp only [List.cons_append, scan, ih]
    split
    · rw [← cons_append]; rfl
    · split
      · rw [← cons_append]; rfl
      · split
        · rw [← cons_append]
        · rfl

/-- A blank ends the word before it. -/
theorem ofChars_append_blank {c : Char} (blank : isBlank c = true) (before after : List Char) :
    ofChars (before ++ c :: after) = ofChars before ++ ofChars after := by
  rw [ofChars, scan_append_blank blank]
  exact (cons_append _ _ _).symm

theorem ofChars_joinLines (ls : List (List Char)) :
    ofChars (joinLines ls) = ls.flatMap ofChars := by
  induction ls with
  | nil => rfl
  | cons line more ih =>
    cases more with
    | nil => simp [joinLines]
    | cons next more =>
      rw [joinLines, ofChars_append_blank (by decide), ih]
      rfl

theorem scan_word {text : List Char}
    (plain : ∀ c ∈ text, isBlank c = false ∧ c ≠ '\x7b' ∧ c ≠ '\x7d') : scan text = (text, []) := by
  induction text with
  | nil => rfl
  | cons c rest ih =>
    obtain ⟨blank, noOpen, noClose⟩ := plain c (by simp)
    have tail := ih (fun d hd => plain d (List.mem_cons_of_mem c hd))
    simp [scan, tail, blank, noOpen, noClose]

theorem ofChars_word {text : List Char} (h : IsWord text) :
    ofChars text = [.word (String.ofList text)] := by
  rw [ofChars, scan_word h.2]
  simp [cons, h.1]

/-- What a word token must hold to come from code. -/
def IsRead : Token → Prop
  | .word w => IsWord w.toList
  | _ => True

theorem isRead_cons {run : List Char} {ts : List Token}
    (plain : ∀ c ∈ run, isBlank c = false ∧ c ≠ '\x7b' ∧ c ≠ '\x7d')
    (h : ∀ t ∈ ts, t.IsRead) : ∀ t ∈ cons run ts, t.IsRead := by
  intro t member
  unfold cons at member
  split at member
  · exact h t member
  · next filled =>
    rcases List.mem_cons.mp member with rfl | member
    · exact ⟨by simpa using filled, by simpa using plain⟩
    · exact h t member

theorem isRead_scan (code : List Char) :
    (∀ c ∈ (scan code).1, isBlank c = false ∧ c ≠ '\x7b' ∧ c ≠ '\x7d') ∧
      ∀ t ∈ (scan code).2, t.IsRead := by
  induction code with
  | nil => simp [scan]
  | cons c rest ih =>
    have all := isRead_cons ih.1 ih.2
    have brace : ∀ b : Token, b.IsRead → ∀ t ∈ b :: cons (scan rest).1 (scan rest).2, t.IsRead := by
      intro b hb t member
      rcases List.mem_cons.mp member with rfl | member
      · exact hb
      · exact all t member
    simp only [scan]
    split
    · exact ⟨by simp, brace _ trivial⟩
    · split
      · exact ⟨by simp, brace _ trivial⟩
      · split
        · exact ⟨by simp, all⟩
        · next noOpen noClose filled =>
          refine ⟨?_, ih.2⟩
          intro d member
          rcases List.mem_cons.mp member with rfl | member
          · exact ⟨by simpa using filled, noOpen, noClose⟩
          · exact ih.1 d member

/-- The words of any code are filled and hold neither blanks nor braces. -/
theorem isRead_ofChars (code : List Char) : ∀ t ∈ ofChars code, t.IsRead :=
  isRead_cons (isRead_scan code).1 (isRead_scan code).2

theorem ofChars_text {t : Token} (h : t.IsRead) : ofChars t.text.toList = [t] := by
  cases t with
  | openBrace => rfl
  | closeBrace => rfl
  | word w => simpa [text] using ofChars_word h

/-- Tokens that are written one after the other, with a space in between, are read back. -/
theorem ofChars_intercalate {ts : List Token} (h : ∀ t ∈ ts, t.IsRead) :
    ofChars (" ".intercalate (ts.map text)).toList = ts := by
  induction ts with
  | nil => rfl
  | cons t ts ih =>
    have first := ofChars_text (h t (by simp))
    have following := ih fun u hu => h u (List.mem_cons_of_mem t hu)
    cases ts with
    | nil => simpa using first
    | cons u ts =>
      rw [List.map_cons] at following
      rw [List.map_cons, List.map_cons, String.intercalate_cons_cons, String.append_assoc,
        String.toList_append, String.toList_append]
      change ofChars (_ ++ ' ' :: String.toList _) = _
      rw [ofChars_append_blank (by decide), first, following]
      rfl

end Evolution.Blueprint.Token

namespace Evolution.Point

open Blueprint Text

/-- Trees whose code can be spelled: the texts of literals, which code leaves out, are free. -/
def Spelled (p : Point) : Prop :=
  ∀ q ∈ p.preorder, match q with
    | .block _ => True
    | .instruction name => IsName name.toList
    | .reference name => IsName name.toList
    | .literal note => isTypeName note.tag.toList = true

theorem WellFormed.spelled {p : Point} (h : p.WellFormed) : p.Spelled := by
  intro q member
  have label := h q member
  cases q with
  | block _ => trivial
  | instruction _ => exact label
  | reference _ => exact label
  | literal _ => exact label.tag

@[simp]
theorem spelled_block {inner : List Point} :
    (Point.block inner).Spelled ↔ ∀ p ∈ inner, p.Spelled := by
  simp [Spelled, forall_preorder_block]

@[simp]
theorem spelled_instruction {name : String} :
    (Point.instruction name).Spelled ↔ IsName name.toList := by
  simp [Spelled, preorder]

@[simp]
theorem spelled_reference {name : String} :
    (Point.reference name).Spelled ↔ IsName name.toList := by
  simp [Spelled, preorder]

@[simp]
theorem spelled_literal {note : Footnote} :
    (Point.literal note).Spelled ↔ isTypeName note.tag.toList = true := by
  simp [Spelled, preorder]

/-- Code and footnotes share the conditions between them. -/
theorem wellFormed_iff_spelled {p : Point} :
    p.WellFormed ↔ p.Spelled ∧ ∀ note ∈ p.footnotes, note.WellFormed := by
  refine ⟨fun h => ⟨h.spelled, h.footnotes⟩, ?_⟩
  rintro ⟨spelled, notes⟩
  induction p with
  | block inner ih =>
    rw [spelled_block] at spelled
    rw [footnotes_block] at notes
    rw [wellFormed_block]
    intro p hp
    exact ih p hp (spelled p hp) fun note hn => notes note (List.mem_flatMap.mpr ⟨p, hp, hn⟩)
  | instruction _ => exact wellFormed_instruction.mpr (spelled_instruction.mp spelled)
  | reference _ => exact wellFormed_reference.mpr (spelled_reference.mp spelled)
  | literal note => exact wellFormed_literal.mpr (notes note (by simp))

end Evolution.Point
