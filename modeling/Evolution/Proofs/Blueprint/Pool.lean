import Evolution.Proofs.Blueprint.Link

/-!
How the footnotes of a blueprint are shared out. Linking walks through a tree, but all that counts
for the pool is the types of the literals in pre-order: each takes the first entry of its type.
Among the entries of one type nothing changes its order, so a literal that comes behind `k` others
of its type takes the entry behind `k` others, or finds none.
-/

namespace Evolution

/-- The types of the literals, in pre-order. -/
def Point.tags (p : Point) : List String := p.footnotes.map Footnote.tag

namespace Blueprint

/-- The footnotes of one type, in order. -/
def ofType (type : String) (notes : List Footnote) : List Footnote :=
  notes.filter (·.tag = type)

/-- The entries that no literal takes, in their order: the entry at `i` stays when the entries of
its type in front of it are enough for all the literals. -/
def unclaimed (tags : List String) (notes : List Footnote) : List Footnote :=
  (notes.zipIdx.filter fun (note, i) =>
    tags.count note.tag ≤ (ofType note.tag (notes.take i)).length).map Prod.fst

/-- The literal at `j` finds no footnote: those of its type in front of it took them all. -/
def NoneLeft (tags : List String) (notes : List Footnote) (j : Nat) : Prop :=
  ∃ type, tags[j]? = some type ∧ (ofType type notes).length ≤ (tags.take j).count type

/-- The type of the first literal that finds no footnote. -/
def FirstMissing (tags : List String) (notes : List Footnote) (type : String) : Prop :=
  ∃ j, tags[j]? = some type ∧ NoneLeft tags notes j ∧ ∀ i < j, ¬ NoneLeft tags notes i

/-- Takes the first footnote of each type in turn: linking without the tree. -/
def deal : List String → List Footnote → Except ParseError (List Footnote × List Footnote)
  | [], pool => .ok ([], pool)
  | tag :: tags, pool =>
    match claim? tag pool with
    | none => .error (.missingFootnote tag)
    | some (found, between) => (deal tags between).map fun (taken, left) => (found :: taken, left)

variable {tag : String} {tags : List String} {pool between taken left : List Footnote}
  {found : Footnote}

@[simp]
theorem ofType_nil (type : String) : ofType type [] = [] := rfl

@[simp]
theorem ofType_cons (type : String) (note : Footnote) (notes : List Footnote) :
    ofType type (note :: notes) =
      if note.tag = type then note :: ofType type notes else ofType type notes := by
  simp [ofType, List.filter_cons]

@[simp]
theorem ofType_append (type : String) (notes more : List Footnote) :
    ofType type (notes ++ more) = ofType type notes ++ ofType type more :=
  List.filter_append ..

theorem length_ofType (type : String) (notes : List Footnote) :
    (ofType type notes).length = (notes.map Footnote.tag).count type := by
  induction notes with
  | nil => rfl
  | cons note notes ih =>
    simp only [ofType_cons, List.map_cons, List.count_cons, beq_iff_eq]
    split <;> simp [ih]

theorem claim?_eq_none_iff : claim? tag pool = none ↔ ofType tag pool = [] := by
  induction pool with
  | nil => simp [claim?]
  | cons note pool ih =>
    rw [claim?, ofType_cons]
    split <;> simp [ih]

/-- Taking the first footnote of a type and putting it in front leaves the order within each
type. -/
theorem ofType_claim? (claimed : claim? tag pool = some (found, left)) (type : String) :
    ofType type (found :: left) = ofType type pool := by
  induction pool generalizing found left with
  | nil => simp [claim?] at claimed
  | cons note pool ih =>
    rw [claim?] at claimed
    split at claimed
    · obtain ⟨rfl, rfl⟩ := Prod.mk.inj (Option.some.inj claimed)
      rfl
    · next other =>
      obtain ⟨⟨first, rest⟩, further, same⟩ := Option.map_eq_some_iff.mp claimed
      obtain ⟨rfl, rfl⟩ := Prod.mk.inj same
      have tagged : first.tag = tag := (claim?_sound further).1
      have kept := ih further
      -- the two that change places are of different types
      have apart : first.tag ≠ note.tag := fun same => other (same ▸ tagged)
      simp only [ofType_cons] at kept ⊢
      grind

theorem deal_cons_sound (dealt : deal (tag :: tags) pool = .ok (taken, left)) :
    ∃ found between others, claim? tag pool = some (found, between) ∧
      deal tags between = .ok (others, left) ∧ taken = found :: others := by
  rw [deal] at dealt
  split at dealt
  · simp at dealt
  · next found between claimed =>
    cases further : deal tags between with
    | error e => simp [further, Except.map] at dealt
    | ok rest =>
      rw [further] at dealt
      obtain ⟨rfl, rfl⟩ := Prod.mk.inj (Except.ok.inj dealt)
      exact ⟨found, between, rest.1, claimed, further, rfl⟩

/-- Everything is dealt out by type and in order: first to the literals, the rest stays. -/
theorem deal_sound (dealt : deal tags pool = .ok (taken, left)) :
    taken.map Footnote.tag = tags ∧ ∀ type, ofType type (taken ++ left) = ofType type pool := by
  induction tags generalizing pool taken with
  | nil =>
    obtain ⟨rfl, rfl⟩ := Prod.mk.inj (Except.ok.inj dealt)
    exact ⟨rfl, fun type => rfl⟩
  | cons tag tags ih =>
    obtain ⟨found, between, others, claimed, further, rfl⟩ := deal_cons_sound dealt
    obtain ⟨tagged, kept⟩ := ih further
    refine ⟨by rw [List.map_cons, tagged, (claim?_sound claimed).1], ?_⟩
    intro type
    rw [List.cons_append, ofType_cons, kept, ← ofType_cons, ofType_claim? claimed]

theorem deal_append (tags more : List String) (pool : List Footnote) :
    deal (tags ++ more) pool = deal tags pool >>= fun (taken, between) =>
      (deal more between).map fun (others, left) => (taken ++ others, left) := by
  induction tags generalizing pool with
  | nil =>
    change _ = (deal more pool).map id
    cases h : deal more pool <;> simp [h, Except.map]
  | cons tag tags ih =>
    rw [List.cons_append, deal, deal]
    cases claim? tag pool with
    | none => rfl
    | some first =>
      obtain ⟨found, between⟩ := first
      simp only [ih]
      cases deal tags between with
      | error e => rfl
      | ok rest =>
        obtain ⟨taken, between⟩ := rest
        simp only [bind, Except.bind, Except.map]
        cases deal more between <;> rfl

/-- Linking deals with the types of the literals and leaves the rest of the tree alone. -/
theorem link_deal (p : Point) (pool : List Footnote) :
    (link p pool).map (Prod.map Point.footnotes id) = deal p.tags pool := by
  induction p generalizing pool with
  | block inner ih =>
    have contents : (linkIn inner pool).map (Prod.map (·.flatMap Point.footnotes) id) =
        deal (inner.flatMap Point.tags) pool := by
      induction inner generalizing pool with
      | nil => rfl
      | cons p ps ihs =>
        have first := ih p (by simp)
        have others := ihs fun p hp => ih p (List.mem_cons_of_mem _ hp)
        rw [List.flatMap_cons, deal_append, ← first, linkIn]
        cases link p pool with
        | error e => rfl
        | ok found =>
          obtain ⟨q, between⟩ := found
          simp only [Except.map, bind, Except.bind, Prod.map, id_eq, ← others]
          cases linkIn ps between <;> simp [pure, Except.pure]
    have same : (Point.block inner).tags = inner.flatMap Point.tags := by
      rw [Point.tags, Point.footnotes_block, List.map_flatMap]
      rfl
    rw [same, ← contents, link]
    cases linkIn inner pool <;> simp [Except.map, Prod.map, Point.footnotes_block]
  | instruction name => rfl
  | reference name => rfl
  | literal note =>
    rw [link]
    change _ = deal [note.tag] pool
    rw [deal]
    cases claim? note.tag pool <;> rfl

theorem count_le_of_deal (dealt : deal tags pool = .ok (taken, left)) (type : String) :
    tags.count type ≤ (ofType type pool).length := by
  obtain ⟨tagged, kept⟩ := deal_sound dealt
  rw [← kept, ofType_append, List.length_append, length_ofType type taken, tagged]
  omega

theorem noneLeft_zero (tags : List String) :
    NoneLeft (tag :: tags) pool 0 ↔ claim? tag pool = none := by
  simp [NoneLeft, claim?_eq_none_iff]

theorem noneLeft_succ (claimed : claim? tag pool = some (found, between)) (j : Nat) :
    NoneLeft (tag :: tags) pool (j + 1) ↔ NoneLeft tags between j := by
  have count : ∀ type, (ofType type between).length ≤ (tags.take j).count type ↔
      (ofType type pool).length ≤ ((tag :: tags).take (j + 1)).count type := by
    intro type
    rw [← ofType_claim? claimed, ofType_cons, (claim?_sound claimed).1, List.take_succ_cons,
      List.count_cons]
    by_cases same : tag = type <;> simp [same]
  simp only [NoneLeft, List.getElem?_cons_succ, count]

theorem firstMissing_cons (claimed : claim? tag pool = some (found, between)) (type : String) :
    FirstMissing (tag :: tags) pool type ↔ FirstMissing tags between type := by
  constructor
  · rintro ⟨_ | j, here, none, before⟩
    · rw [noneLeft_zero, claimed] at none
      simp at none
    · refine ⟨j, here, (noneLeft_succ claimed j).mp none, fun i less => ?_⟩
      exact mt (noneLeft_succ claimed i).mpr (before (i + 1) (by omega))
  · rintro ⟨j, here, none, before⟩
    refine ⟨j + 1, here, (noneLeft_succ claimed j).mpr none, ?_⟩
    rintro (_ | i) less
    · rw [noneLeft_zero, claimed]
      simp
    · exact mt (noneLeft_succ claimed i).mp (before i (by omega))

theorem deal_eq_error_iff {e : ParseError} : deal tags pool = .error e ↔
    ∃ type, e = .missingFootnote type ∧ FirstMissing tags pool type := by
  induction tags generalizing pool with
  | nil => simp [deal, FirstMissing]
  | cons tag tags ih =>
    rw [deal]
    cases claimed : claim? tag pool with
    | none =>
      have none := (noneLeft_zero tags).mpr claimed
      constructor
      · rintro ⟨⟩
        exact ⟨tag, rfl, 0, rfl, none, by simp⟩
      · rintro ⟨type, rfl, j, here, _, before⟩
        obtain rfl : j = 0 := by
          by_contra later
          exact before 0 (by omega) none
        obtain rfl := Option.some.inj here
        rfl
    | some first =>
      obtain ⟨found, between⟩ := first
      simp only [firstMissing_cons claimed, ← ih]
      cases deal tags between <;> simp [Except.map]

/-- Footnotes are wanting exactly when some type has fewer of them than literals. -/
theorem deal_fails_iff : (∃ e, deal tags pool = .error e) ↔
    ∃ type, (ofType type pool).length < tags.count type := by
  constructor
  · rintro ⟨e, failed⟩
    obtain ⟨-, -, j, -, ⟨type, here, none⟩, -⟩ := deal_eq_error_iff.mp failed
    have next : tags.take (j + 1) = tags.take j ++ [type] := by
      rw [List.take_add_one, here]
      rfl
    have counted := (List.take_sublist (j + 1) tags).count_le type
    rw [next, List.count_append, List.count_singleton_self] at counted
    exact ⟨type, by omega⟩
  · rintro ⟨type, less⟩
    cases dealt : deal tags pool with
    | error e => exact ⟨e, rfl⟩
    | ok found => exact absurd (count_le_of_deal dealt type) (by omega)

theorem unclaimed_nil (pool : List Footnote) : unclaimed [] pool = pool := by
  simp [unclaimed]

/-- The first entry goes to a literal of its type, if there is one. -/
theorem unclaimed_cons (tags : List String) (note : Footnote) (pool : List Footnote) :
    unclaimed tags (note :: pool) =
      if note.tag ∈ tags then unclaimed (tags.erase note.tag) pool
      else note :: unclaimed tags pool := by
  have later : ∀ (other : Footnote) (i : Nat),
      tags.count other.tag ≤ (ofType other.tag ((note :: pool).take (i + 1))).length ↔
        (tags.erase note.tag).count other.tag ≤ (ofType other.tag (pool.take i)).length := by
    intro other i
    rw [List.take_succ_cons, ofType_cons, List.count_erase]
    by_cases same : note.tag = other.tag <;> simp [same]
  have rest : ((pool.zipIdx.map (Prod.map id (· + 1))).filter fun (other, i) =>
      tags.count other.tag ≤ (ofType other.tag ((note :: pool).take i)).length).map Prod.fst =
        unclaimed (tags.erase note.tag) pool := by
    rw [List.filter_map, List.map_map, unclaimed]
    exact congrArg (List.map Prod.fst)
      (List.filter_congr fun (other, i) _ => decide_eq_decide.mpr (later other i))
  rw [unclaimed, List.zipIdx_cons', List.filter_cons]
  by_cases wanted : note.tag ∈ tags
  · have some : tags.count note.tag ≠ 0 := mt List.count_eq_zero.mp (not_not.mpr wanted)
    simpa [wanted, some] using rest
  · rw [List.erase_of_not_mem wanted] at rest
    simpa [wanted, List.count_eq_zero.mpr wanted] using rest

/-- A literal that takes its footnote does not change what stays in the end. -/
theorem unclaimed_claim? (claimed : claim? tag pool = some (found, between)) :
    unclaimed (tag :: tags) pool = unclaimed tags between := by
  induction pool generalizing tags found between with
  | nil => simp [claim?] at claimed
  | cons note pool ih =>
    rw [claim?] at claimed
    split at claimed
    · next same =>
      obtain ⟨rfl, rfl⟩ := Prod.mk.inj (Option.some.inj claimed)
      simp [unclaimed_cons, same]
    · next other =>
      obtain ⟨⟨first, rest⟩, further, same⟩ := Option.map_eq_some_iff.mp claimed
      obtain ⟨rfl, rfl⟩ := Prod.mk.inj same
      have skipped : (tag :: tags).erase note.tag = tag :: tags.erase note.tag :=
        List.erase_cons_tail (by simpa using Ne.symm other)
      simp only [unclaimed_cons, List.mem_cons, other, false_or, skipped, ih further]

/-- What stays in the pool is known from the entries and the types alone. -/
theorem deal_unclaimed (dealt : deal tags pool = .ok (taken, left)) :
    left = unclaimed tags pool := by
  induction tags generalizing pool taken with
  | nil =>
    obtain ⟨rfl, rfl⟩ := Prod.mk.inj (Except.ok.inj dealt)
    exact (unclaimed_nil pool).symm
  | cons tag tags ih =>
    obtain ⟨found, between, others, claimed, further, rfl⟩ := deal_cons_sound dealt
    rw [unclaimed_claim? claimed]
    exact ih further

theorem link_by_type {p q : Point} (linked : link p pool = .ok (q, left)) :
    q.unlinked = p.unlinked ∧ left = unclaimed p.tags pool ∧
      (∀ type, ofType type (q.footnotes ++ left) = ofType type pool) ∧ q.tags = p.tags := by
  have dealt : deal p.tags pool = .ok (q.footnotes, left) := by
    rw [← link_deal, linked]
    rfl
  obtain ⟨tagged, kept⟩ := deal_sound dealt
  exact ⟨(link_sound linked).1, deal_unclaimed dealt, kept, tagged⟩

theorem link_eq_error_iff {p : Point} {e : ParseError} :
    link p pool = .error e ↔ deal p.tags pool = .error e := by
  rw [← link_deal]
  cases link p pool <;> simp [Except.map]

end Blueprint

namespace Program

open Blueprint Text

/-- The lines of a blueprint before the first that opens an entry. -/
def codeSection (text : String) : List (List Char) :=
  (lines text.toList).takeWhile (!Footnote.opens ·)

/-- The lines of a blueprint from the first that opens an entry. -/
def noteSection (text : String) : List (List Char) :=
  (lines text.toList).dropWhile (!Footnote.opens ·)

/-- The entries of the footnote section, in order. -/
def entries (text : String) : Except ParseError (List Footnote) :=
  (readNotes ((codeSection text).length + 1) (noteSection text)).map Prod.snd

/-- The tree of the code section, its literals without texts. -/
def codeTree (text : String) : Except ParseError Point :=
  readCode (joinLines (codeSection text))

theorem parse_eq_link (text : String) : parse text =
    (entries text).bind fun notes => (codeTree text).bind fun root =>
      (link root notes).map fun linked => ⟨linked.1, linked.2⟩ := by
  simp only [parse, read, entries, codeTree, codeSection, noteSection]
  cases readNotes _ _ with
  | error e => rfl
  | ok found =>
    simp only [Except.map, Except.bind]
    cases readCode _ with
    | error e => rfl
    | ok root =>
      dsimp only
      cases link root found.2 <;> rfl

theorem parse_eq_ok_iff {text : String} {p : Program} : parse text = .ok p ↔
    ∃ root notes, codeTree text = .ok root ∧ entries text = .ok notes ∧
      link root notes = .ok (p.root, p.unused) := by
  rw [parse_eq_link]
  cases entries text with
  | error e => simp [Except.bind]
  | ok notes =>
    cases codeTree text with
    | error e => simp [Except.bind]
    | ok root =>
      cases h : link root notes with
      | error e => simp [Except.bind, Except.map, h]
      | ok linked =>
        obtain ⟨q, unused⟩ := linked
        cases p
        simp [Except.bind, Except.map, h]

theorem parse_eq_error_iff {text : String} {root : Point} {notes : List Footnote}
    (code : codeTree text = .ok root) (below : entries text = .ok notes) (e : ParseError) :
    parse text = .error e ↔ deal root.tags notes = .error e := by
  rw [parse_eq_link, below, code, ← link_eq_error_iff]
  cases h : link root notes <;> simp [Except.bind, Except.map, h]

/-- Linking loses no entry and invents none. Type by type, the footnotes of the program are the
entries in their order; the `k`-th literal of a type holds the `k`-th entry of that type, and the
entries without a literal stay where they were. When the two sections can be read, it fails only
for want of entries, and it names the first literal in pre-order that finds none. -/
theorem parse_links_by_type (text : String) :
    (∀ p, parse text = .ok p → ∃ root notes, codeTree text = .ok root ∧ entries text = .ok notes ∧
      p.root.unlinked = root ∧
      (∀ type, ofType type p.footnotes = ofType type notes) ∧
      (∀ type k, k < root.tags.count type → ∃ note,
        (ofType type p.root.footnotes)[k]? = some note ∧ (ofType type notes)[k]? = some note) ∧
      p.unused = unclaimed root.tags notes) ∧
    (∀ root notes, codeTree text = .ok root → entries text = .ok notes →
      ((∃ e, parse text = .error e) ↔
        ∃ type, (ofType type notes).length < root.tags.count type) ∧
      ∀ e, parse text = .error e ↔
        ∃ type, e = .missingFootnote type ∧ FirstMissing root.tags notes type) := by
  constructor
  · intro p read
    obtain ⟨root, notes, code, below, linked⟩ := parse_eq_ok_iff.mp read
    obtain ⟨same, rest, kept, tagged⟩ := link_by_type linked
    refine ⟨root, notes, code, below, same.trans (readCode_sound code).2, kept, ?_, rest⟩
    intro type k few
    have here : k < (ofType type p.root.footnotes).length := by
      rw [length_ofType]
      rwa [← tagged] at few
    refine ⟨_, List.getElem?_eq_getElem here, ?_⟩
    rw [← kept, ofType_append, List.getElem?_append_left here, List.getElem?_eq_getElem here]
  · intro root notes code below
    simp only [parse_eq_error_iff code below]
    exact ⟨deal_fails_iff, fun e => deal_eq_error_iff⟩

/-- Two types interleaved, one entry over; and a text where the third literal is the first that finds
nothing. -/
theorem parse_links_by_type_interleaved :
    let text := "block \x7b value «b» value «a» value «b» \x7d\n«a» x\n«b» 1\n«a» y\n«b» 2\n"
    let short := "block \x7b value «b» value «a» value «b» value «a» \x7d\n«b» 1\n«a» x\n"
    let p : Program :=
      ⟨.block [.literal ⟨"b", "1"⟩, .literal ⟨"a", "x"⟩, .literal ⟨"b", "2"⟩], [⟨"a", "y"⟩]⟩
    (∃ notes, entries text = .ok notes ∧
      ∀ type, ofType type p.footnotes = ofType type notes) ∧
    ∃ root notes type, codeTree short = .ok root ∧ entries short = .ok notes ∧
      (ofType type notes).length < root.tags.count type ∧
      parse short = .error (.missingFootnote "b") ∧ FirstMissing root.tags notes "b" := by
  intro text short p
  constructor
  · obtain ⟨root, notes, -, below, -, kept, -⟩ :=
      (parse_links_by_type text).1 p (by decide +kernel)
    exact ⟨notes, below, kept⟩
  · have code : codeTree short = .ok
        (.block [.literal ⟨"b", ""⟩, .literal ⟨"a", ""⟩, .literal ⟨"b", ""⟩, .literal ⟨"a", ""⟩]) := by
      decide +kernel
    have below : entries short = .ok [⟨"b", "1"⟩, ⟨"a", "x"⟩] := by decide +kernel
    have failed : parse short = .error (.missingFootnote "b") := by decide +kernel
    obtain ⟨fails, names⟩ := (parse_links_by_type short).2 _ _ code below
    obtain ⟨type, less⟩ := fails.mp ⟨_, failed⟩
    obtain ⟨_, same, missing⟩ := (names _).mp failed
    obtain rfl := ParseError.missingFootnote.inj same
    exact ⟨_, _, type, code, below, less, failed, missing⟩

end Program

end Evolution
