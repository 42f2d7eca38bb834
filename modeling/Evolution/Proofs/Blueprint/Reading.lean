import Evolution.Proofs.Blueprint.Layout

/-! Reading the tokens of a tree. The open blocks stand for the tokens read so far, and after the
tokens of a tree that tree stands in the innermost of them, its literals still without texts. -/

namespace Evolution

namespace Point

mutual

/-- The tree with empty texts in its literals, as code alone describes it. -/
def unlinked : Point → Point
  | .block inner => .block (unlinkedIn inner)
  | .instruction name => .instruction name
  | .reference name => .reference name
  | .literal note => .literal ⟨note.tag, ""⟩

def unlinkedIn : List Point → List Point
  | [] => []
  | p :: rest => unlinked p :: unlinkedIn rest

end

theorem unlinkedIn_eq_map (ps : List Point) : unlinkedIn ps = ps.map unlinked := by
  induction ps with
  | nil => rfl
  | cons p rest ih => simp [unlinkedIn, ih]

@[simp]
theorem unlinked_block (inner : List Point) :
    (Point.block inner).unlinked = .block (inner.map unlinked) := by
  rw [unlinked, unlinkedIn_eq_map]

@[simp]
theorem tokens_block (inner : List Point) : (Point.block inner).tokens =
    .word "block" :: .openBrace :: (inner.flatMap tokens ++ [.closeBrace]) := by
  rw [tokens, tokensIn_eq_flatMap]
  rfl

theorem codeLines_unlinked (depth : Nat) (p : Point) :
    codeLines depth p.unlinked = codeLines depth p := by
  induction p generalizing depth with
  | block inner ih =>
    rw [unlinked_block]
    by_cases empty : inner = []
    · rw [empty, List.map_nil]
    · have filled : inner.map unlinked ≠ [] := by simpa using empty
      rw [codeLines_block filled, codeLines_block empty, List.flatMap_map]
      simp only [List.flatMap_congr fun p hp => ih p hp (depth + 1)]
  | instruction _ | reference _ | literal _ => rfl

/-- The code of a tree does not show the texts of its literals. -/
theorem code_unlinked (p : Point) : p.unlinked.code = p.code := by
  rw [code, codeLines_unlinked, code]

end Point

namespace Blueprint

open Text

theorem tagName?_eq_some_iff {word : String} {name : List Char} :
    tagName? word = some name ↔ word = "«" ++ String.ofList name ++ "»" := by
  constructor
  · intro h
    unfold tagName? at h
    split at h
    · next rest start =>
      split at h
      · next last =>
        obtain rfl := Option.some.inj h
        have filled : rest ≠ [] := by
          rintro rfl
          simp at last
        have ending : rest.getLast filled = '»' := by
          rw [List.getLast?_eq_some_getLast filled] at last
          exact Option.some.inj last
        rw [← String.toList_inj, start, ← List.dropLast_append_getLast filled, ending]
        simp
      · simp at h
    · simp at h
  · rintro rfl
    simp [tagName?]

/-- The tokens read so far, of the blocks that are still open. -/
def openTokens : List OpenBlock → List Token
  | [] => []
  | b :: outer =>
    openTokens outer ++ .word "block" :: .openBrace :: b.contents.reverse.flatMap Point.tokens

theorem openTokens_push (b : OpenBlock) (outer : List OpenBlock) (p : Point) :
    openTokens ({ b with contents := p :: b.contents } :: outer) =
      openTokens (b :: outer) ++ p.tokens := by
  simp [openTokens]

/-- What reading code gives: a tree that can be spelled, with no text in its literals. -/
def IsUnlinked (p : Point) : Prop := p.Spelled ∧ p.unlinked = p

theorem isUnlinked_block {inner : List Point} (h : ∀ p ∈ inner, IsUnlinked p) :
    IsUnlinked (.block inner) := by
  refine ⟨Point.spelled_block.mpr fun p hp => (h p hp).1, ?_⟩
  rw [Point.unlinked_block, List.map_congr_left (fun p hp => (h p hp).2), List.map_id']

theorem isName_text {name : String} (word : IsWord name.toList) (h : isName name = true) :
    IsName name.toList := by
  refine ⟨word, ?_⟩
  simpa [isName] using h

variable {position : Nat} {opened : List OpenBlock}

theorem readPoint_block (rest : List Token) :
    readPoint position opened (.word "block" :: .openBrace :: rest) =
      readPoint (position + 2) (⟨position + 1, []⟩ :: opened) rest := by
  simp [readPoint]

theorem readPoint_name {keyword name : String} (leaf : keyword = "do" ∨ keyword = "ref")
    (named : isName name = true) (rest : List Token) :
    readPoint position opened (.word keyword :: .word name :: rest) =
      settle (if keyword = "do" then .instruction name else .reference name) rest
        (fun os => readPoint (position + 2) os rest) opened := by
  rcases leaf with rfl | rfl <;> simp [readPoint, named]

theorem readPoint_literal {tag : String} {name : List Char} (found : tagName? tag = some name)
    (valid : isTypeName name = true) (rest : List Token) :
    readPoint position opened (.word "value" :: .word tag :: rest) =
      settle (.literal ⟨String.ofList name, ""⟩) rest
        (fun os => readPoint (position + 2) os rest) opened := by
  simp [readPoint, found, valid]

/-- The points of a sequence go one after the other into the block that is open. -/
theorem readPoint_contents {inner : List Point} {b : OpenBlock} {outer : List OpenBlock}
    {rest : List Token}
    (each : ∀ p ∈ inner, ∀ position opened rest, readPoint position opened (p.tokens ++ rest) =
      settle p.unlinked rest
        (fun os => readPoint (position + p.tokens.length) os rest) opened) :
    readPoint position (b :: outer) (inner.flatMap Point.tokens ++ rest) =
      readPoint (position + (inner.flatMap Point.tokens).length)
        ({ b with contents := (inner.map Point.unlinked).reverse ++ b.contents } :: outer) rest := by
  induction inner generalizing position b with
  | nil => rfl
  | cons p inner ih =>
    have head := each p (by simp) position (b :: outer) (inner.flatMap Point.tokens ++ rest)
    rw [List.flatMap_cons, List.append_assoc, head]
    change readPoint _ (_ :: outer) _ = _
    rw [ih fun q hq => each q (List.mem_cons_of_mem p hq)]
    simp [Nat.add_assoc]

theorem readPoint_tokens {p : Point} (h : p.Spelled) (position : Nat) (opened : List OpenBlock)
    (rest : List Token) : readPoint position opened (p.tokens ++ rest) =
      settle p.unlinked rest (fun os => readPoint (position + p.tokens.length) os rest) opened := by
  induction p generalizing position opened rest with
  | block inner ih =>
    have each := fun p hp => ih p hp (Point.spelled_block.mp h p hp)
    rw [Point.tokens_block, List.cons_append, List.cons_append, readPoint_block, List.append_assoc,
      readPoint_contents each, List.singleton_append, readPoint]
    simp only [List.append_nil, List.reverse_reverse, List.length_cons, List.length_append,
      List.length_nil, Point.unlinked_block]
    congr 1
    funext os
    congr 1
    omega
  | instruction name =>
    have named : isName name = true := by simpa [isName] using (Point.spelled_instruction.mp h).2
    exact readPoint_name (.inl rfl) named rest
  | reference name =>
    have named : isName name = true := by simpa [isName] using (Point.spelled_reference.mp h).2
    exact readPoint_name (.inr rfl) named rest
  | literal note =>
    have tag : tagName? ("«" ++ note.tag ++ "»") = some note.tag.toList :=
      tagName?_eq_some_iff.mpr (by simp)
    apply (readPoint_literal tag (Point.spelled_literal.mp h) rest).trans
    rw [String.ofList_toList]
    rfl

theorem tokens_ne_nil (p : Point) : p.tokens ≠ [] := by
  cases p <;> simp [Point.tokens]

end Blueprint

end Evolution
