import Evolution.Proofs.Blueprint.Tokens
import Evolution.Proofs.Text.Plain

/-! The lines of a tree's code. None of them opens an entry of the footnote section, none is cut by
splitting into lines, and together they spell the tokens of the tree. -/

namespace Evolution

open Blueprint Text

/-- A line of code as it stands in a blueprint. -/
structure IsCodeLine (line : List Char) : Prop where
  newline : '\n' ∉ line
  opens : Footnote.opens line = false
  last : ∃ c ∈ line.getLast?, isBlank c = false

namespace IsCodeLine

theorem isLine {line : List Char} (h : IsCodeLine line) : IsLine line := by
  obtain ⟨c, last, blank⟩ := h.last
  refine ⟨?_, h.newline, ?_⟩
  · rintro rfl
    simp at last
  · intro carriage
    rw [carriage, Option.mem_some_iff] at last
    subst c
    exact absurd blank (by decide)

/-- Indentation changes nothing that matters about a line that starts with a keyword or a brace. -/
theorem indent {text : List Char} (depth : Nat)
    (first : ∃ c ∈ text.head?, isBlank c = false ∧ c ≠ '«') (newline : '\n' ∉ text)
    (last : ∃ c ∈ text.getLast?, isBlank c = false) :
    IsCodeLine (Point.indent depth ++ text) := by
  obtain ⟨c, head, visible, noEntry⟩ := first
  obtain ⟨rest, rfl⟩ := List.head?_eq_some_iff.mp head
  have blanks : ∀ c ∈ Point.indent depth, c = ' ' := fun c h => (List.mem_replicate.mp h).2
  refine ⟨?_, ?_, ?_⟩
  · intro member
    rcases List.mem_append.mp member with member | member
    · exact absurd (blanks _ member) (by decide)
    · exact newline member
  · have skip : (Point.indent depth ++ c :: rest).dropWhile isBlank = c :: rest := by
      rw [List.dropWhile_append_of_pos, List.dropWhile_cons_of_neg (by simp [visible])]
      intro c h
      rw [blanks c h]
      decide
    simp [Footnote.opens, trimStart, skip, noEntry]
  · rw [List.getLast?_append_of_ne_nil _ (by simp)]
    exact last

end IsCodeLine

theorem Blueprint.Token.ofChars_indent (depth : Nat) (text : List Char) :
    Token.ofChars (Point.indent depth ++ text) = Token.ofChars text := by
  have skip : ∀ n, Token.ofChars (List.replicate n ' ' ++ text) = Token.ofChars text := by
    intro n
    induction n with
    | zero => rfl
    | succ n ih =>
      rw [List.replicate_succ, List.cons_append, Token.ofChars_cons_blank (by decide), ih]
  exact skip (2 * depth)

/-- A keyword, a blank and a word are two tokens. -/
theorem Blueprint.Token.ofChars_keyword {keyword text : List Char} (first : IsWord keyword)
    (second : IsWord text) : Token.ofChars (keyword ++ ' ' :: text) =
      [.word (String.ofList keyword), .word (String.ofList text)] := by
  rw [Token.ofChars_append_blank (by decide), Token.ofChars_word first, Token.ofChars_word second]
  rfl

/-- A type's name in guillemets is a word. -/
theorem isWord_tag {name : List Char} (h : isTypeName name = true) :
    IsWord ('«' :: name ++ ['»']) := by
  refine ⟨by simp, ?_⟩
  intro c member
  simp only [List.cons_append, List.mem_cons, List.mem_append, List.not_mem_nil, or_false] at member
  rcases member with rfl | member | rfl
  · decide
  · have plain := isPlain_of_isTypeName h c member
    exact ⟨plain.isBlank, plain.ne (by decide), plain.ne (by decide)⟩
  · decide

theorem Text.IsWord.newline {text : List Char} (h : IsWord text) : '\n' ∉ text := by
  intro member
  exact absurd (h.2 _ member).1 (by decide)

theorem Text.IsWord.last {text : List Char} (h : IsWord text) :
    ∃ c ∈ text.getLast?, isBlank c = false := by
  refine ⟨text.getLast h.1, List.getLast?_eq_some_getLast h.1, ?_⟩
  exact (h.2 _ (List.getLast_mem h.1)).1

namespace Point

/-- The line of a leaf. -/
theorem isCodeLine_keyword {keyword text : List Char} (depth : Nat) (first : IsWord keyword)
    (noEntry : keyword.head? ≠ some '«') (second : IsWord text) :
    IsCodeLine (indent depth ++ (keyword ++ ' ' :: text)) := by
  refine .indent depth ?_ ?_ ?_
  · obtain ⟨c, rest, rfl⟩ := List.exists_cons_of_ne_nil first.1
    exact ⟨c, rfl, (first.2 c (by simp)).1, fun h => noEntry (congrArg some h)⟩
  · intro member
    rcases List.mem_append.mp member with member | member
    · exact first.newline member
    · rcases List.mem_cons.mp member with same | member
      · exact absurd same (by decide)
      · exact second.newline member
  · obtain ⟨c, last, blank⟩ := second.last
    refine ⟨c, ?_, blank⟩
    rw [List.getLast?_append_of_ne_nil _ (by simp), List.getLast?_cons, Option.mem_def.mp last]
    rfl

theorem codeLinesIn_eq_flatMap (depth : Nat) (ps : List Point) :
    codeLinesIn depth ps = ps.flatMap (codeLines depth) := by
  induction ps with
  | nil => rfl
  | cons p rest ih => simp [codeLinesIn, ih]

theorem tokensIn_eq_flatMap (ps : List Point) : tokensIn ps = ps.flatMap tokens := by
  induction ps with
  | nil => rfl
  | cons p rest ih => simp [tokensIn, ih]

/-- A block with contents takes a line for each of its braces. -/
theorem codeLines_block {inner : List Point} (filled : inner ≠ []) (depth : Nat) :
    codeLines depth (.block inner) =
      (indent depth ++ "block \x7b".toList) ::
        (inner.flatMap (codeLines (depth + 1)) ++ [indent depth ++ ['\x7d']]) := by
  obtain ⟨p, rest, rfl⟩ := List.exists_cons_of_ne_nil filled
  simp [codeLines, codeLinesIn_eq_flatMap]

theorem isCodeLine_codeLines {p : Point} (h : p.Spelled) (depth : Nat) :
    ∀ line ∈ codeLines depth p, IsCodeLine line := by
  induction p generalizing depth with
  | block inner ih =>
    rw [spelled_block] at h
    by_cases empty : inner = []
    · subst inner
      intro line member
      obtain rfl := List.mem_singleton.mp member
      exact .indent depth ⟨'b', rfl, by decide⟩ (by decide) ⟨'\x7d', rfl, by decide⟩
    · intro line member
      rw [codeLines_block empty, List.mem_cons, List.mem_append, List.mem_flatMap,
        List.mem_singleton] at member
      rcases member with rfl | ⟨p, hp, member⟩ | rfl
      · exact .indent depth ⟨'b', rfl, by decide⟩ (by decide) ⟨'\x7b', rfl, by decide⟩
      · exact ih p hp (h p hp) (depth + 1) line member
      · exact .indent depth ⟨'\x7d', rfl, by decide⟩ (by decide) ⟨'\x7d', rfl, by decide⟩
  | instruction name =>
    intro line member
    obtain rfl := List.mem_singleton.mp member
    rw [List.append_assoc]
    have keyword : IsWord "do".toList := by decide
    exact isCodeLine_keyword depth keyword (by decide) (spelled_instruction.mp h).1
  | reference name =>
    intro line member
    obtain rfl := List.mem_singleton.mp member
    rw [List.append_assoc]
    have keyword : IsWord "ref".toList := by decide
    exact isCodeLine_keyword depth keyword (by decide) (spelled_reference.mp h).1
  | literal note =>
    intro line member
    obtain rfl := List.mem_singleton.mp member
    rw [List.append_assoc, List.append_assoc]
    have keyword : IsWord "value".toList := by decide
    exact isCodeLine_keyword depth keyword (by decide) (isWord_tag (spelled_literal.mp h))

/-- Read line by line, laid-out code gives the tokens of its tree, at any depth. -/
theorem ofChars_codeLines {p : Point} (h : p.Spelled) (depth : Nat) :
    (codeLines depth p).flatMap Token.ofChars = p.tokens := by
  induction p generalizing depth with
  | block inner ih =>
    rw [spelled_block] at h
    by_cases empty : inner = []
    · subst inner
      simp only [codeLines, List.flatMap_singleton, Token.ofChars_indent]
      rfl
    · have contents : (inner.flatMap (codeLines (depth + 1))).flatMap Token.ofChars =
          inner.flatMap tokens := by
        rw [List.flatMap_assoc]
        exact List.flatMap_congr fun p hp => ih p hp (h p hp) (depth + 1)
      rw [codeLines_block empty, List.flatMap_cons, List.flatMap_append, contents,
        List.flatMap_singleton, Token.ofChars_indent, Token.ofChars_indent, tokens,
        tokensIn_eq_flatMap]
      rfl
  | instruction name =>
    have keyword : IsWord "do".toList := by decide
    have words := Token.ofChars_keyword keyword (spelled_instruction.mp h).1
    rw [codeLines, List.flatMap_singleton, List.append_assoc, Token.ofChars_indent]
    exact words.trans (by simp [tokens])
  | reference name =>
    have keyword : IsWord "ref".toList := by decide
    have words := Token.ofChars_keyword keyword (spelled_reference.mp h).1
    rw [codeLines, List.flatMap_singleton, List.append_assoc, Token.ofChars_indent]
    exact words.trans (by simp [tokens])
  | literal note =>
    have keyword : IsWord "value".toList := by decide
    have words := Token.ofChars_keyword keyword (isWord_tag (spelled_literal.mp h))
    rw [codeLines, List.flatMap_singleton, List.append_assoc, List.append_assoc,
      Token.ofChars_indent]
    exact words.trans (by simp [tokens, String.append_assoc])

theorem codeLines_ne_nil (depth : Nat) (p : Point) : codeLines depth p ≠ [] := by
  cases p with
  | block inner => cases inner <;> simp [codeLines]
  | instruction _ => simp [codeLines]
  | reference _ => simp [codeLines]
  | literal _ => simp [codeLines]

/-- The last line of code ends in a visible character, so no blank is dropped there. -/
theorem code_eq_joinLines {p : Point} (h : p.Spelled) : p.code = joinLines (codeLines 0 p) := by
  have final := List.getLast?_eq_some_getLast (codeLines_ne_nil 0 p)
  have line := isCodeLine_codeLines h 0 _ (List.getLast_mem (codeLines_ne_nil 0 p))
  obtain ⟨c, last, blank⟩ := line.last
  apply trimEnd_eq_self_iff.mpr
  rw [getLast?_joinLines final line.isLine.1, Option.mem_def.mp last]
  rintro d same
  obtain rfl := Option.mem_some_iff.mp same
  exact blank

end Point
end Evolution
