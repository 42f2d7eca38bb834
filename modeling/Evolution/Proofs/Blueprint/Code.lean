import Evolution.Proofs.Blueprint.Verdict

/-! Reading code. The tokens of a tree are read as that tree without its texts, and no other tokens are
accepted; so laid-out code is read as the tree it was laid out from. -/

namespace Evolution

namespace Blueprint

open Text

/-- The tokens of a tree, and no others, are read as that tree without its texts. -/
theorem readTokens_eq_ok_iff {ts : List Token} {root : Point} (words : ∀ t ∈ ts, t.IsRead) :
    readTokens ts = .ok root ↔ ts = root.tokens ∧ IsUnlinked root := by
  constructor
  · intro read
    unfold readTokens at read
    split at read
    · simp at read
    · split at read
      · simp at read
      · next root' found =>
        obtain rfl := Except.ok.inj read
        have verdict := readTokens_verdict words
        rw [found] at verdict
        cases verdict with
        | root good split => exact ⟨by simpa using split, good⟩
      · simp at read
  · rintro ⟨rfl, spelled, unlinked⟩
    have read := readPoint_tokens spelled 0 [] []
    rw [List.append_nil, unlinked] at read
    rw [readTokens, if_neg (by simp [tokens_ne_nil]), read]
    rfl

theorem readCode_sound {code : List Char} {root : Point} (read : readCode code = .ok root) :
    IsUnlinked root :=
  ((readTokens_eq_ok_iff (Token.isRead_ofChars code)).mp read).2

@[simp]
theorem spelled_unlinked {p : Point} : p.unlinked.Spelled ↔ p.Spelled := by
  induction p with
  | block inner ih =>
    rw [Point.unlinked_block, Point.spelled_block, Point.spelled_block]
    constructor
    · intro h p hp
      exact (ih p hp).mp (h p.unlinked (List.mem_map_of_mem hp))
    · intro h q hq
      obtain ⟨p, hp, rfl⟩ := List.mem_map.mp hq
      exact (ih p hp).mpr (h p hp)
  | instruction _ => rfl
  | reference _ => rfl
  | literal note => simp [Point.unlinked]

theorem isUnlinked_unlinked {p : Point} (h : p.Spelled) : IsUnlinked p.unlinked := by
  refine ⟨spelled_unlinked.mpr h, ?_⟩
  clear h
  induction p with
  | block inner ih => simpa using ih
  | instruction _ => rfl
  | reference _ => rfl
  | literal _ => rfl

theorem tokens_unlinked (p : Point) : p.unlinked.tokens = p.tokens := by
  induction p with
  | block inner ih =>
    simp only [Point.unlinked_block, Point.tokens_block, List.flatMap_map]
    rw [List.flatMap_congr ih]
  | instruction _ => rfl
  | reference _ => rfl
  | literal _ => rfl

/-- Laid-out code is read as the tree it was laid out from. -/
theorem readCode_codeLines {p : Point} (h : p.Spelled) :
    readCode (joinLines (Point.codeLines 0 p)) = .ok p.unlinked := by
  rw [readCode, readTokens_eq_ok_iff (Token.isRead_ofChars _), Token.ofChars_joinLines,
    Point.ofChars_codeLines h, tokens_unlinked]
  exact ⟨rfl, isUnlinked_unlinked h⟩

end Blueprint

end Evolution
