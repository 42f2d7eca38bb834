import Evolution.Proofs.Blueprint.Reading

/-!
What reading tokens comes to: a tree that its tokens write, or an error whose blame is right. Tokens
are *viable* when some tree begins with them; the reader blames a token only when everything before
it is viable and the token spoils that, and it blames the end only when nothing but more tokens is
wanting. There is a lemma for each kind of token, and the verdict on a text follows by induction.

The blocks that are open carry the argument in both directions. Their tokens followed by the
beginning of a point are viable, since every block may be closed after it; and reading from the
start comes by them, so what is refused with these blocks open is refused after their tokens.
-/

namespace Evolution.Blueprint

open Text

/-- Some tree begins with the tokens. -/
def Viable (ts : List Token) : Prop :=
  ∃ p : Point, p.Spelled ∧ ts <+: p.tokens

/-- The token at `position` is the first that no tree has there. -/
structure FirstBad (ts : List Token) (t : Token) (position : Nat) : Prop where
  found : ts[position]? = some t
  viable : Viable (ts.take position)
  spoiled : ¬ Viable (ts.take (position + 1))

/-- The token at `position` opens a block, and only finished points come after it. -/
def Innermost (ts : List Token) (position : Nat) : Prop :=
  ts[position]? = some .openBrace ∧
    ∃ inner : List Point, (∀ p ∈ inner, p.Spelled) ∧
      ts.drop (position + 1) = inner.flatMap Point.tokens

/-- Open blocks as reading leaves them: every brace stands behind the tokens of the blocks around
it, and the points so far are ones that reading gives. -/
def Ready : List OpenBlock → Prop
  | [] => True
  | b :: outer =>
    b.position = (openTokens outer).length + 1 ∧ (∀ p ∈ b.contents, IsUnlinked p) ∧ Ready outer

variable {opened : List OpenBlock}

theorem Ready.push {b : OpenBlock} {outer : List OpenBlock} (h : Ready (b :: outer)) {p : Point}
    (hp : IsUnlinked p) : Ready ({ b with contents := p :: b.contents } :: outer) := by
  obtain ⟨place, good, outside⟩ := h
  exact ⟨place, by simpa using ⟨hp, good⟩, outside⟩

/-- Reading from the start comes by every list of open blocks. -/
theorem readPoint_openTokens (h : Ready opened) (rest : List Token) :
    readPoint 0 [] (openTokens opened ++ rest) =
      readPoint (openTokens opened).length opened rest := by
  induction opened generalizing rest with
  | nil => rfl
  | cons b outer ih =>
    obtain ⟨place, good, outside⟩ := h
    have each : ∀ p ∈ b.contents.reverse, ∀ position opened rest,
        readPoint position opened (p.tokens ++ rest) = settle p.unlinked rest
          (fun os => readPoint (position + p.tokens.length) os rest) opened :=
      fun p hp => readPoint_tokens (good p (by simpa using hp)).1
    have same : b.contents.map Point.unlinked = b.contents := by
      rw [List.map_congr_left (fun p hp => (good p hp).2), List.map_id']
    rw [openTokens, List.append_assoc, ih outside, List.cons_append, List.cons_append,
      readPoint_block, readPoint_contents each, List.map_reverse, List.reverse_reverse, same,
      ← place, List.append_nil]
    congr 1
    simp only [List.length_append, List.length_cons]
    omega

section Viable

variable {ts : List Token}

theorem viable_nil : Viable [] :=
  ⟨.block [], by simp, List.nil_prefix⟩

/-- The beginning of a point may stand where blocks are open: each of them may end after it. -/
theorem Viable.inside (h : Viable ts) (ready : Ready opened) :
    Viable (openTokens opened ++ ts) := by
  induction opened generalizing ts with
  | nil => exact h
  | cons b outer ih =>
    obtain ⟨-, good, outside⟩ := ready
    obtain ⟨p, spelled, more, same⟩ := h
    have block : Viable (.word "block" :: .openBrace ::
        (b.contents.reverse.flatMap Point.tokens ++ ts)) := by
      refine ⟨.block (b.contents.reverse ++ [p]), ?_, more ++ [.closeBrace], ?_⟩
      · rw [Point.spelled_block]
        intro q hq
        rcases List.mem_append.mp hq with hq | hq
        · exact (good q (by simpa using hq)).1
        · exact List.mem_singleton.mp hq ▸ spelled
      · simp [← same]
    rw [openTokens, List.append_assoc]
    exact ih block outside

theorem viable_openTokens (ready : Ready opened) : Viable (openTokens opened) := by
  simpa using viable_nil.inside ready

theorem innermost_openTokens {b : OpenBlock} {outer : List OpenBlock} (ready : Ready (b :: outer)) :
    Innermost (openTokens (b :: outer)) b.position := by
  obtain ⟨place, good, -⟩ := ready
  refine ⟨?_, b.contents.reverse, ?_, ?_⟩
  · simp [openTokens, place]
  · exact fun p hp => (good p (by simpa using hp)).1
  · simp [openTokens, place, Nat.add_assoc, List.drop_length_add_append]

/-- What the reader refuses with blocks open, whatever follows, begins no tree. -/
theorem not_viable_of_refused (ts : List Token) (ready : Ready opened)
    (refused : ∀ more, ∃ e,
      readPoint (openTokens opened).length opened (ts ++ more) = .error e) :
    ¬ Viable (openTokens opened ++ ts) := by
  rintro ⟨p, spelled, more, same⟩
  obtain ⟨e, failed⟩ := refused more
  have read := readPoint_tokens spelled 0 [] []
  rw [List.append_nil, ← same, List.append_assoc, readPoint_openTokens ready, failed] at read
  exact absurd read (by simp [settle])

end Viable

/-- What an outcome of reading says about the tokens that were read. -/
inductive Verdict (ts : List Token) : Except ParseError (Point × List Token) → Prop
  | root {p : Point} {rest : List Token} (good : IsUnlinked p) (split : ts = p.tokens ++ rest) :
      Verdict ts (.ok (p, rest))
  | unexpected {t : Token} {position : Nat} (bad : FirstBad ts t position) :
      Verdict ts (.error (.unexpectedToken t.text position))
  | invalidTag {name : String} {position : Nat}
      (bad : FirstBad ts (.word ("«" ++ name ++ "»")) position) :
      Verdict ts (.error (.invalidTypeName name))
  | short {keyword : String} (viable : Viable ts) : Verdict ts (.error (.unexpectedEnd keyword))
  | unterminated {position : Nat} (viable : Viable ts) (brace : Innermost ts position) :
      Verdict ts (.error (.unterminatedBlock position))

section Verdict

variable {pre : List Token} {t : Token}

theorem viable_keyword {keyword : String}
    (known : keyword = "block" ∨ (keyword = "do" ∨ keyword = "ref") ∨ keyword = "value") :
    Viable [.word keyword] := by
  rcases known with rfl | (rfl | rfl) | rfl
  · exact ⟨.block [], by simp, by simp⟩
  · exact ⟨.instruction "x", Point.spelled_instruction.mpr (by decide), by simp [Point.tokens]⟩
  · exact ⟨.reference "x", Point.spelled_reference.mpr (by decide), by simp [Point.tokens]⟩
  · exact ⟨.literal ⟨"int", ""⟩, Point.spelled_literal.mpr (by decide), by simp [Point.tokens]⟩

theorem firstBad_append {before after : List Token} (viable : Viable before)
    (spoiled : ¬ Viable (before ++ [t])) : FirstBad (before ++ t :: after) t before.length where
  found := by simp
  viable := by simpa using viable
  spoiled := by simpa [List.take_length_add_append] using spoiled

/-- A token that is refused after the beginning of a point spoils what was viable before it. -/
theorem firstBad_of_refused (after : List Token) (ready : Ready opened) (viable : Viable pre)
    {e : ParseError}
    (refused : ∀ more, readPoint (openTokens opened).length opened (pre ++ t :: more) = .error e) :
    FirstBad (openTokens opened ++ (pre ++ t :: after)) t
      ((openTokens opened).length + pre.length) := by
  have spoiled := not_viable_of_refused (pre ++ [t]) ready
    fun more => ⟨e, by simpa using refused more⟩
  rw [← List.append_assoc] at spoiled
  rw [← List.length_append, ← List.append_assoc]
  exact firstBad_append (viable.inside ready) spoiled

/-- Reading these tokens with blocks open has an outcome that says what is true of all tokens so
far. -/
def Judged (opened : List OpenBlock) (ts : List Token) : Prop :=
  Verdict (openTokens opened ++ ts) (readPoint (openTokens opened).length opened ts)

theorem Judged.blamed {after : List Token} (pre : List Token) (ready : Ready opened)
    (viable : Viable pre)
    (refused : ∀ more, readPoint (openTokens opened).length opened (pre ++ t :: more) =
      .error (.unexpectedToken t.text ((openTokens opened).length + pre.length))) :
    Judged opened (pre ++ t :: after) := by
  rw [Judged, refused]
  exact .unexpected (firstBad_of_refused after ready viable refused)

variable {rest : List Token}

/-- A finished point leaves the verdict to what is read after it. -/
theorem verdict_settle {p : Point} (ready : Ready opened) (hp : IsUnlinked p)
    (next : ∀ os, Ready os → Judged os rest) :
    Verdict (openTokens opened ++ (p.tokens ++ rest)) (settle p rest
      (fun os => readPoint ((openTokens opened).length + p.tokens.length) os rest) opened) := by
  cases opened with
  | nil => exact .root hp rfl
  | cons b outer =>
    have := next _ (ready.push hp)
    rwa [Judged, openTokens_push, List.append_assoc, List.length_append] at this

theorem judged_nil (ready : Ready opened) : Judged opened [] := by
  cases opened with
  | nil => exact .short viable_nil
  | cons b outer =>
    rw [Judged, List.append_nil]
    exact .unterminated (viable_openTokens ready) (innermost_openTokens ready)

theorem judged_openBrace (ready : Ready opened) : Judged opened (.openBrace :: rest) :=
  .blamed [] ready viable_nil fun more => by simp [readPoint]

/-- A closing brace finishes the innermost block. -/
theorem judged_closeBrace (ready : Ready opened) (next : ∀ os, Ready os → Judged os rest) :
    Judged opened (.closeBrace :: rest) := by
  cases opened with
  | nil => exact .blamed [] ready viable_nil fun more => by simp [readPoint]
  | cons b outer =>
    obtain ⟨-, good, outside⟩ := ready
    have finished : IsUnlinked (.block b.contents.reverse) :=
      isUnlinked_block fun p hp => good p (by simpa using hp)
    have long : (openTokens (b :: outer)).length + 1 =
        (openTokens outer).length + (Point.block b.contents.reverse).tokens.length := by
      simp [openTokens]
      omega
    have := verdict_settle outside finished next
    rw [Judged, readPoint, long]
    simpa [openTokens] using this

/-- The keyword alone is viable, so if no brace follows it is the token after it that spoils the
code. -/
theorem judged_block (ready : Ready opened)
    (next : ∀ left, left <:+ rest → ∀ os, Ready os → Judged os left) :
    Judged opened (.word "block" :: rest) := by
  have viable := viable_keyword (.inl rfl)
  cases rest with
  | nil => exact .short (viable.inside ready)
  | cons t after =>
    by_cases brace : t = .openBrace
    · subst brace
      have inside := next after (List.suffix_cons _ _)
        (⟨(openTokens opened).length + 1, []⟩ :: opened) ⟨rfl, by simp, ready⟩
      rw [Judged, readPoint_block]
      simpa [Judged, openTokens] using inside
    · exact .blamed [.word "block"] ready viable fun more => by
        cases t <;> simp_all [readPoint]

theorem judged_name {keyword : String} (leaf : keyword = "do" ∨ keyword = "ref")
    (words : ∀ t ∈ rest, t.IsRead) (ready : Ready opened)
    (next : ∀ left, left <:+ rest → ∀ os, Ready os → Judged os left) :
    Judged opened (.word keyword :: rest) := by
  have viable := viable_keyword (.inr (.inl leaf))
  have notBlock : keyword ≠ "block" := by rcases leaf with rfl | rfl <;> decide
  rcases rest with _ | ⟨_ | _ | name, after⟩
  · rw [Judged, readPoint]
    simp only [notBlock, leaf, if_true, if_false]
    exact .short (viable.inside ready)
  · exact .blamed [.word keyword] ready viable fun more => by simp [readPoint, notBlock, leaf]
  · exact .blamed [.word keyword] ready viable fun more => by simp [readPoint, notBlock, leaf]
  · by_cases named : isName name = true
    · have word := isName_text (words (.word name) (by simp)) named
      have following := next after (List.suffix_cons _ _)
      rw [Judged, readPoint_name leaf named]
      rcases leaf with rfl | rfl
      · have good : IsUnlinked (.instruction name) := ⟨Point.spelled_instruction.mpr word, rfl⟩
        exact verdict_settle ready good following
      · have good : IsUnlinked (.reference name) := ⟨Point.spelled_reference.mpr word, rfl⟩
        exact verdict_settle ready good following
    · exact .blamed [.word keyword] ready viable fun more => by
        simp [readPoint, notBlock, leaf, named, Token.text]

/-- A word that is no tag is blamed like any token; of a tag with a name that no type can have, the
name is. -/
theorem judged_value (ready : Ready opened)
    (next : ∀ left, left <:+ rest → ∀ os, Ready os → Judged os left) :
    Judged opened (.word "value" :: rest) := by
  have viable := viable_keyword (.inr (.inr rfl))
  rcases rest with _ | ⟨_ | _ | tag, after⟩
  · exact .short (viable.inside ready)
  · exact .blamed [.word "value"] ready viable fun more => by simp [readPoint]
  · exact .blamed [.word "value"] ready viable fun more => by simp [readPoint]
  · cases found : tagName? tag with
    | none =>
      exact .blamed [.word "value"] ready viable fun more => by simp [readPoint, found, Token.text]
    | some name =>
      have spelling := tagName?_eq_some_iff.mp found
      by_cases valid : isTypeName name = true
      · have good : IsUnlinked (.literal ⟨String.ofList name, ""⟩) :=
          ⟨Point.spelled_literal.mpr (by simpa using valid), rfl⟩
        rw [Judged, readPoint_literal found valid, spelling]
        exact verdict_settle ready good (next after (List.suffix_cons _ _))
      · have refused : ∀ more, readPoint (openTokens opened).length opened
            ([.word "value"] ++ .word tag :: more) =
              .error (.invalidTypeName (String.ofList name)) := fun more => by
          simp [readPoint, found, valid]
        have bad := firstBad_of_refused after ready viable refused
        rw [Judged, ← List.singleton_append, refused]
        rw [spelling] at bad ⊢
        exact .invalidTag bad

theorem judged_other {keyword : String} (notBlock : keyword ≠ "block")
    (notLeaf : ¬(keyword = "do" ∨ keyword = "ref")) (notValue : keyword ≠ "value")
    (ready : Ready opened) : Judged opened (.word keyword :: rest) :=
  .blamed [] ready viable_nil fun more => by
    rw [List.nil_append, readPoint.eq_def]
    simp [notBlock, notLeaf, notValue, Token.text]

/-- The open blocks stand for what was read, so the whole text is the same in every step. -/
theorem judged (ts : List Token) (words : ∀ t ∈ ts, t.IsRead) (opened : List OpenBlock)
    (ready : Ready opened) : Judged opened ts := by
  match ts with
  | [] => exact judged_nil ready
  | t :: rest =>
    have next : ∀ left, left <:+ rest → ∀ os, Ready os → Judged os left := fun left shorter =>
      judged left fun t ht => words t (List.mem_cons_of_mem _ (shorter.subset ht))
    have rightAfter := next rest List.suffix_rfl
    match t with
    | .openBrace => exact judged_openBrace ready
    | .closeBrace => exact judged_closeBrace ready rightAfter
    | .word keyword =>
      by_cases block : keyword = "block"
      · exact block ▸ judged_block ready next
      by_cases leaf : keyword = "do" ∨ keyword = "ref"
      · exact judged_name leaf (fun t ht => words t (List.mem_cons_of_mem _ ht)) ready next
      by_cases value : keyword = "value"
      · exact value ▸ judged_value ready next
      · exact judged_other block leaf value ready
termination_by ts.length
decreasing_by simpa using Nat.lt_succ_of_le shorter.length_le

theorem readTokens_verdict {ts : List Token} (words : ∀ t ∈ ts, t.IsRead) :
    Verdict ts (readPoint 0 [] ts) :=
  judged ts words [] trivial

end Verdict

end Evolution.Blueprint
