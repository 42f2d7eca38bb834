import Evolution.Proofs.Blueprint.Code

/-!
What the reader of code says about tokens that are no tree: it blames the first token that no tree can
have there, the end where a tree still goes on, or what comes after a complete one.
-/

namespace Evolution.Blueprint

/-- Some tree begins with the tokens and goes on after them. -/
def Truncated (ts : List Token) : Prop :=
  ∃ p : Point, p.Spelled ∧ ts <+: p.tokens ∧ ts ≠ p.tokens

/-- A tree is complete in the tokens, and `s` spells what is left of them. -/
def Trailing (ts : List Token) (s : String) : Prop :=
  ∃ (p : Point) (rest : List Token), p.Spelled ∧ rest ≠ [] ∧ ts = p.tokens ++ rest ∧
    s = " ".intercalate (rest.map Token.text) ∧ Token.ofChars s.toList = rest

/-- What is true of the tokens when reading them ends with an error. -/
def Diagnosis (ts : List Token) : ParseError → Prop
  | .empty => ts = []
  | .unexpectedToken token position => ∃ t : Token, t.text = token ∧ FirstBad ts t position
  | .unexpectedEnd _ => Truncated ts
  | .unterminatedBlock position => Truncated ts ∧ Innermost ts position
  | .trailingCode s => Trailing ts s
  | .invalidTypeName name => ∃ position, FirstBad ts (.word ("«" ++ name ++ "»")) position
  | .malformedFootnote .. => False
  | .missingFootnote _ => False

section Tokens

variable {ts : List Token}

/-- Tokens that some tree begins with, and that are none themselves, are cut short. -/
theorem Viable.truncated (h : Viable ts) (words : ∀ t ∈ ts, t.IsRead) {e : ParseError}
    (failed : readTokens ts = .error e) : Truncated ts := by
  obtain ⟨p, spelled, starts⟩ := h
  refine ⟨p, spelled, starts, ?_⟩
  intro same
  have read : readTokens ts = .ok p.unlinked :=
    (readTokens_eq_ok_iff words).mpr
      ⟨same.trans (tokens_unlinked p).symm, isUnlinked_unlinked spelled⟩
  rw [read] at failed
  exact absurd failed (by simp)

theorem trailing_append {p : Point} {rest : List Token} (spelled : p.Spelled) (left : rest ≠ [])
    (words : ∀ t ∈ rest, t.IsRead) :
    Trailing (p.tokens ++ rest) (" ".intercalate (rest.map Token.text)) :=
  ⟨p, rest, spelled, left, rfl, rfl, Token.ofChars_intercalate words⟩

theorem readTokens_diagnosis (words : ∀ t ∈ ts, t.IsRead) {e : ParseError}
    (failed : readTokens ts = .error e) : Diagnosis ts e := by
  have verdict := readTokens_verdict words
  have whole := failed
  unfold readTokens at failed
  split at failed
  · next none =>
    obtain rfl := Except.error.inj failed
    exact List.isEmpty_iff.mp none
  · split at failed
    · next e' outcome =>
      obtain rfl := Except.error.inj failed
      rw [outcome] at verdict
      cases verdict with
      | unexpected bad => exact ⟨_, rfl, bad⟩
      | invalidTag bad => exact ⟨_, bad⟩
      | short viable => exact viable.truncated words whole
      | unterminated viable brace => exact ⟨viable.truncated words whole, brace⟩
    · simp at failed
    · next root rest left outcome =>
      obtain rfl := Except.error.inj failed
      rw [outcome] at verdict
      cases verdict with
      | root good split =>
        subst split
        exact trailing_append good.1 (by simpa using left)
          fun t ht => words t (List.mem_append_right _ ht)

theorem readTokens_trailing {s : String} (h : Trailing ts s) :
    readTokens ts = .error (.trailingCode s) := by
  obtain ⟨p, rest, spelled, left, rfl, rfl, -⟩ := h
  rw [readTokens, if_neg (by simp [tokens_ne_nil]), readPoint_tokens spelled]
  cases rest with
  | nil => exact absurd rfl left
  | cons t rest => rfl

end Tokens

/-- Code is accepted exactly when its tokens are those of a tree, and every refusal says what is
wrong with them: the first token that no tree can have there, the end where a tree still goes on,
or what comes after a complete one. -/
theorem readCode_diagnosis (code : List Char) :
    (∀ root, readCode code = .ok root ↔
      Token.ofChars code = root.tokens ∧ root.Spelled ∧ root.unlinked = root) ∧
    (∀ e, readCode code = .error e → Diagnosis (Token.ofChars code) e) ∧
    (∀ s, readCode code = .error (.trailingCode s) ↔ Trailing (Token.ofChars code) s) ∧
    (readCode code = .error .empty ↔ Token.ofChars code = []) := by
  have words := Token.isRead_ofChars code
  refine ⟨fun root => readTokens_eq_ok_iff words, fun e => readTokens_diagnosis words,
    fun s => ⟨readTokens_diagnosis words, readTokens_trailing⟩, readTokens_diagnosis words, ?_⟩
  intro none
  rw [readCode, none]
  rfl

/-- A name that is missing, a block that stays open, and the same block behind a complete point.
Keywords stand for names in the last two. -/
theorem readCode_diagnosis_missing_name :
    let unnamed := "block \x7b do a ref \x7d".toList
    let unclosed := "block \x7b do ref".toList
    let followed := "do do block \x7b do ref".toList
    (∃ t : Token, t.text = "\x7d" ∧ FirstBad (Token.ofChars unnamed) t 5) ∧
      (Truncated (Token.ofChars unclosed) ∧ Innermost (Token.ofChars unclosed) 1) ∧
      Trailing (Token.ofChars followed) "block \x7b do ref" := by
  intro unnamed unclosed followed
  obtain ⟨-, refused, -⟩ := readCode_diagnosis unnamed
  obtain ⟨-, cut, -⟩ := readCode_diagnosis unclosed
  obtain ⟨-, -, trailing, -⟩ := readCode_diagnosis followed
  exact ⟨refused (.unexpectedToken "\x7d" 5) (by decide +kernel),
    cut (.unterminatedBlock 1) (by decide +kernel), (trailing _).mp (by decide +kernel)⟩

end Evolution.Blueprint
