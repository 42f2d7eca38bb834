import Evolution.Proofs.Blueprint.RoundTrip
import Evolution.Proofs.Draw.Faults
import Evolution.Proofs.Literal.Builtin

/-! Code on one line. It has the tokens of the indented code, so a tree without literals is read back
from it, and the random texts of the code type are programs of the size that was asked for. -/

namespace Evolution

open Blueprint Text

theorem Blueprint.Token.ofChars_openBrace (rest : List Char) :
    Token.ofChars ('\x7b' :: rest) = .openBrace :: Token.ofChars rest := by
  simp [ofChars, scan, cons]

namespace Point

/-- What follows the opening brace of a block. -/
theorem ofChars_compacts {ps : List Point} (each : ∀ p ∈ ps, Token.ofChars p.compact = p.tokens) :
    Token.ofChars (compacts ps) = ps.flatMap tokens ++ [.closeBrace] := by
  induction ps with
  | nil => rfl
  | cons p rest ih =>
    obtain ⟨first, others⟩ := List.forall_mem_cons.mp each
    cases rest with
    | nil =>
      have ending : compacts [p] = ' ' :: (p.compact ++ ' ' :: ['\x7d']) := rfl
      rw [ending, Token.ofChars_cons_blank (by decide), Token.ofChars_append_blank (by decide), first]
      simp [Token.ofChars, Token.scan, Token.cons]
    | cons q rest =>
      -- The blank before the next point ends the first.
      obtain ⟨more, next⟩ : ∃ more, compacts (q :: rest) = ' ' :: more := by
        cases rest <;> exact ⟨_, rfl⟩
      have following := ih others
      rw [next, Token.ofChars_cons_blank (by decide)] at following
      rw [compacts, next, List.cons_append, Token.ofChars_cons_blank (by decide),
        Token.ofChars_append_blank (by decide), first, following]
      exact (List.append_assoc _ _ _).symm

theorem ofChars_compact {p : Point} (h : p.Spelled) : Token.ofChars p.compact = p.tokens := by
  induction p with
  | block inner ih =>
    have keyword : IsWord "block".toList := by decide
    have opening : (Point.block inner).compact = "block".toList ++ ' ' :: '\x7b' :: compacts inner := rfl
    have contents := ofChars_compacts fun p hp => ih p hp (spelled_block.mp h p hp)
    rw [opening, Token.ofChars_append_blank (by decide), Token.ofChars_word keyword,
      Token.ofChars_openBrace, contents, tokens_block]
    rfl
  | instruction name =>
    have keyword : IsWord "do".toList := by decide
    have words := Token.ofChars_keyword keyword (spelled_instruction.mp h).1
    exact words.trans (by simp [tokens])
  | reference name =>
    have keyword : IsWord "ref".toList := by decide
    have words := Token.ofChars_keyword keyword (spelled_reference.mp h).1
    exact words.trans (by simp [tokens])
  | literal note =>
    have keyword : IsWord "value".toList := by decide
    have words := Token.ofChars_keyword keyword (isWord_tag (spelled_literal.mp h))
    rw [compact_literal]
    exact words.trans (by simp [tokens, String.append_assoc])

theorem ofChars_code {p : Point} (h : p.Spelled) : Token.ofChars p.code = p.tokens := by
  rw [code_eq_joinLines h, Token.ofChars_joinLines, ofChars_codeLines h]

theorem readCode_compact {p : Point} (h : p.Spelled) : readCode p.compact = .ok p.unlinked := by
  rw [readCode, readTokens_eq_ok_iff (Token.isRead_ofChars _), ofChars_compact h, tokens_unlinked]
  exact ⟨rfl, isUnlinked_unlinked h⟩

theorem lines_compact {p : Point} (h : p.Spelled) : lines p.compact = [p.compact] :=
  lines_eq_singleton (isFramed_compact h).ne_nil (isFramed_compact h).1

/-- A line of code starts with a keyword, so it opens no footnote. -/
theorem opens_compact (p : Point) : Footnote.opens p.compact = false := by
  cases p <;> rfl

/-- Without literals there is nothing to look up in footnotes. -/
theorem parse_compact {p : Point} (h : p.Spelled) (bare : p.footnotes = []) :
    Program.parse (String.ofList p.compact) = .ok (.ofPoint p) := by
  have linked := link_footnotes p []
  rw [bare, List.append_nil] at linked
  simp only [Program.parse, Program.read, String.toList_ofList, lines_compact h, opens_compact,
    Bool.not_false, List.takeWhile_cons_of_pos, List.dropWhile_cons_of_pos, List.takeWhile_nil,
    List.dropWhile_nil, readNotes, joinLines, readCode_compact h, linked]
  rfl

end Point

/-- A text that the code type makes when a size is asked for. -/
structure CodeText (size : Nat) (text : String) : Prop where
  line : lines text.toList = [text.toList]
  /-- The footnote with this text is a line that is read back. -/
  note : Footnote.ofLine? (Footnote.render ⟨"code", text⟩) = some ⟨"code", text⟩
  /-- The text is a program without footnotes, used or unused, of that many points. -/
  program : ∃ p : Program, LiteralType.code.read? text = some (.code p) ∧ p.footnotes = [] ∧
    p.size = max 1 size

theorem Text.IsFramed.ofLine?_render {tag : String} {text : List Char} (h : IsFramed text)
    (named : isTypeName tag.toList = true) :
    Footnote.ofLine? (Footnote.render ⟨tag, String.ofList text⟩) = some ⟨tag, String.ofList text⟩ := by
  have filled := h.ne_nil
  have newline : '\n' ∉ ' ' :: text := by simpa using h.1
  have visible : ∀ c ∈ (' ' :: text).getLast?, isBlank c = false := by
    have ending := (trim_eq_self_iff.mp h.trim_eq).2
    rw [List.getLast?_eq_some_getLast filled] at ending
    rw [List.getLast?_cons, List.getLast?_eq_some_getLast filled]
    exact ending
  have read := (Footnote.tagged named newline visible).2.2
  have spaced : trim (' ' :: text) = text := h.trim_eq
  rw [spaced, String.ofList_toList] at read
  simpa [Footnote.render, filled] using read

variable {o : GenerationOptions}

/-- Options that name no types make no literals. -/
theorem footnotes_eq_nil_of_grown {types : Registry} {p : Point} (none : o.types = [])
    (grown : Grown o types p) : p.footnotes = [] := by
  refine List.filterMap_eq_nil_iff.mpr fun q member => ?_
  cases q with
  | literal note =>
    cases yields_leaf_randomLeaf.of_gives (grown.leaf _ member rfl) with
    | literal _ listed => exact absurd listed (by simp [none])
  | block _ | instruction _ | reference _ => rfl

theorem codeText_compact {p : Point} (h : p.Spelled) (bare : p.footnotes = []) :
    CodeText p.size (String.ofList p.compact) := by
  refine ⟨?_, (Point.isFramed_compact h).ofLine?_render (by decide), .ofPoint p, ?_, ?_, ?_⟩
  · rw [String.toList_ofList, Point.lines_compact h]
  · simp only [LiteralType.code, Point.parse_compact h bare]
  · exact (List.append_nil _).trans bare
  · exact (Nat.max_eq_right p.size_pos).symm

/-- The types among the options make no difference. -/
theorem yields_codeText (named : o.WellNamed) :
    (LiteralType.code.random o).Yields (CodeText o.size) := by
  have bare : GenerationOptions.WellNamed { o with types := [] } :=
    ⟨named.instructions, named.references⟩
  have made := (yields_randomPoint Registry.wellFormed_empty bare (max o.size 1)).and
    (yields_grown_randomPoint (max o.size 1))
  refine made.bind ?_
  rintro p ⟨good, size, grown⟩
  apply Draw.Yields.pure
  have text := codeText_compact good.spelled (footnotes_eq_nil_of_grown rfl grown)
  obtain ⟨q, read, none, same⟩ := text.program
  refine ⟨text.line, text.note, q, read, none, ?_⟩
  rw [same, size]
  omega

theorem failsOnly_code : (LiteralType.code.random o).FailsOnly
    (ChoiceFails { o with types := [] } .empty) :=
  .bind (failsOnly_randomPoint _) fun _ _ => .pure _

/-- Code on one line means what the indented code means; and on any words the code type makes such a
line of code of the right size, if the choices that it takes can be made on these words. -/
theorem compact_means_code :
    (∀ p : Point, p.Spelled → Token.ofChars p.compact = Token.ofChars p.code) ∧
      (∀ p : Point, p.Spelled → p.footnotes = [] →
        Program.parse (String.ofList p.compact) = .ok (.ofPoint p)) ∧
      ∀ (o : GenerationOptions) (words : Words) (position : Nat), o.WellNamed →
        (∃ text next, (LiteralType.code.random o).runFrom words position = .ok (text, next) ∧
            CodeText o.size text) ∨
          ∃ cause, (LiteralType.code.random o).runFrom words position = .error cause ∧
            ChoiceFails { o with types := [] } .empty words cause := by
  refine ⟨fun p h => ?_, fun p => Point.parse_compact, fun o words position named => ?_⟩
  · rw [Point.ofChars_compact h, Point.ofChars_code h]
  · exact (yields_codeText named).ok_or_error failsOnly_code words position

/-- Two points are a block around a leaf. -/
theorem randomPoint_two (o : GenerationOptions) (types : Registry) :
    randomPoint o types 2 = do return .block [← randomLeaf o types] := by
  have size : nextSize o 1 Nat.one_pos = pure ⟨1, Nat.one_pos, Nat.le_refl 1⟩ := rfl
  have leaf : randomPoint o types 1 = randomLeaf o types := by rw [randomPoint, if_pos le_rfl]
  have nothing : randomContents o types 0 = pure [] := by
    rw [randomContents, dif_neg (Nat.lt_irrefl 0)]
  have contents : randomContents o types (2 - 1) = do return [← randomLeaf o types] := by
    rw [randomContents, dif_pos (by decide)]
    change nextSize o 1 Nat.one_pos >>= _ = _
    rw [size, pure_bind]
    change (do return (← randomPoint o types 1) :: (← randomContents o types 0)) = _
    simp only [leaf, nothing, pure_bind]
  rw [randomPoint, if_neg (by decide), contents, bind_assoc]
  simp only [pure_bind]

/-- A block with empty ones inside, and random code for options that also name a type. -/
theorem compact_means_code_nested :
    let p := Point.block [.emptyBlock, .block [.reference "x", .emptyBlock], .instruction "a"]
    let o : GenerationOptions := { size := 2, instructions := ["a"], types := ["int"] }
    let words : Words := ⟨fun _ => 0x8000000000000000, 0⟩
    let text := "block \x7b do a \x7d"
    p.Spelled ∧ p.footnotes = [] ∧ o.WellNamed ∧
      Token.ofChars p.compact = Token.ofChars p.code ∧
      Program.parse (String.ofList p.compact) = .ok (.ofPoint p) ∧
      (LiteralType.code.random o).runFrom words 0 = .ok (text, 2) ∧ CodeText 2 text := by
  intro p o words text
  have spelled : p.Spelled := by
    have names : IsName "x".toList ∧ IsName "a".toList := by decide
    simpa [p, Point.emptyBlock] using names
  have named : o.WellNamed := ⟨by decide, by decide⟩
  have run : (LiteralType.code.random o).runFrom words 0 = .ok (text, 2) := by
    change (do return String.ofList (← randomPoint _ .empty 2).compact : Draw String).runFrom _ _ = _
    rw [randomPoint_two]
    decide +kernel
  obtain ⟨tokens, read, made⟩ := compact_means_code
  refine ⟨spelled, rfl, named, tokens p spelled, read p spelled rfl, run, ?_⟩
  rcases made o words 0 named with ⟨text', next, run', good⟩ | ⟨cause, failed, -⟩
  · obtain ⟨rfl, rfl⟩ := Prod.mk.inj (Except.ok.inj (run.symm.trans run'))
    exact good
  · rw [run] at failed
    cases failed

end Evolution
