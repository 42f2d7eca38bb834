import Evolution.Answer.Dominance
import Evolution.Proofs.Answer.Comparison

/-! The laws of dominance. Among answers whose scores are numbers it is a strict partial order, also
when each answer brings its own criteria. A score that is not a number is neither less than nor equal
to any, so it counts as worse on both sides: an answer with such a score dominates itself. -/

namespace Evolution

namespace Score

theorem beq_self_iff {x : Float} : (x == x) = true ↔ x.isNaN = false := by
  rw [beq_iff]
  simp

/-- Of two numbers that are not equal, one is less. -/
theorem lt_or_lt {x y : Float} (hx : x.isNaN = false) (hy : y.isNaN = false)
    (different : (x == y) = false) : x < y ∨ y < x := by
  have apart : place x ≠ place y := by
    intro same
    simp [beq_iff.mpr ⟨hx, hy, same⟩] at different
  rcases lt_or_gt_of_ne apart with less | more
  · exact .inl (lt_iff.mpr ⟨hx, hy, less⟩)
  · exact .inr (lt_iff.mpr ⟨hy, hx, more⟩)

/-- Going down over a number never comes out above. -/
theorem not_lt_trans {x y z : Float} (number : y.isNaN = false) (first : ¬x < y) (second : ¬y < z) :
    ¬x < z := by
  intro less
  obtain ⟨hx, hz, places⟩ := lt_iff.mp less
  have yx : place y ≤ place x := not_lt.mp fun h => first (lt_iff.mpr ⟨hx, number, h⟩)
  have zy : place z ≤ place y := not_lt.mp fun h => second (lt_iff.mpr ⟨number, hz, h⟩)
  exact absurd places (not_lt.mpr (zy.trans yx))

/-- Going down over a number comes back to the start only if the first step stays there. -/
theorem beq_of_beq_end {x y z : Float} (number : y.isNaN = false) (first : ¬x < y) (second : ¬y < z)
    (back : (x == z) = true) : (x == y) = true := by
  obtain ⟨hx, hz, places⟩ := beq_iff.mp back
  have yx : place y ≤ place x := not_lt.mp fun h => first (lt_iff.mpr ⟨hx, number, h⟩)
  have zy : place z ≤ place y := not_lt.mp fun h => second (lt_iff.mpr ⟨number, hz, h⟩)
  exact beq_iff.mpr ⟨hx, number, (places.trans_le zy).antisymm yx⟩

end Score

theorem SortedTable.contains_eq_isSome {α : Type} (t : SortedTable α) (name : String) :
    t.contains name = (t.get? name).isSome := by
  unfold contains names get?
  induction t.entries with
  | nil => rfl
  | cons entry rest ih =>
    obtain ⟨key, value⟩ := entry
    rw [Table.lookup_entry]
    by_cases same : name = key
    · simp [same]
    · rw [if_neg same, ← ih]
      simp [same]

namespace Answer

/-- The answer has a score under every criterion. -/
def Scored (a : Answer) (criteria : List String) : Prop :=
  ∀ c ∈ criteria, (a.score? c).isSome = true

/-- The scores that the answer has under the criteria are numbers. -/
def Numeric (a : Answer) (criteria : List String) : Prop :=
  ∀ c ∈ criteria, ∀ x ∈ a.score? c, x.isNaN = false

/-- Under every criterion the two scores are equal, unless one of them is not a number. -/
def Tied (a b : Answer) (criteria : List String) : Prop :=
  ∀ c ∈ criteria, ∀ x ∈ a.score? c, ∀ y ∈ b.score? c,
    x.isNaN = false → y.isNaN = false → (x == y) = true

/-- No score of the first answer is less than the second answer's. -/
def NowhereLess (a b : Answer) (criteria : List String) : Prop :=
  ∀ c ∈ criteria, ∀ x ∈ a.score? c, ∀ y ∈ b.score? c, ¬x < y

/-- Under some criterion the scores are not equal. -/
def Differ (a b : Answer) (criteria : List String) : Prop :=
  ∃ c ∈ criteria, ∃ x ∈ a.score? c, ∃ y ∈ b.score? c, (x == y) = false

variable {a b c : Answer} {criteria more : List String}

theorem compareScores_iff {same : Bool} :
    compareScores a b same criteria = true ↔
      a.Scored criteria ∧ b.Scored criteria ∧ a.NowhereLess b criteria ∧
        (same = false ∨ a.Differ b criteria) := by
  induction criteria generalizing same with
  | nil => cases same <;> simp [compareScores, Scored, NowhereLess, Differ]
  | cons criterion rest ih =>
    unfold compareScores
    cases mine : a.score? criterion with
    | none => simp [Scored, mine]
    | some x =>
      cases theirs : b.score? criterion with
      | none => simp [Scored, theirs]
      | some y =>
        by_cases less : x < y
        · simp [NowhereLess, mine, theirs, less]
        · simp only [less, if_false, ih, Bool.and_eq_false_iff, or_assoc]
          simp [Scored, NowhereLess, Differ, mine, theirs, less]

theorem known_eq_known (mine : a.Scored criteria) (theirs : b.Scored criteria) :
    a.known criteria = b.known criteria := by
  refine List.filter_congr fun c hc => ?_
  rw [SortedTable.contains_eq_isSome, SortedTable.contains_eq_isSome]
  exact (mine c hc).trans (theirs c hc).symm

/-- Dominance, criterion by criterion. -/
theorem dominatedBy_iff :
    a.dominatedBy b criteria = true ↔
      a.Scored criteria ∧ b.Scored criteria ∧ a.NowhereLess b criteria ∧ a.Differ b criteria := by
  have compared : compareScores a b true criteria = true ↔ _ := compareScores_iff
  unfold dominatedBy
  split
  · simpa using compared
  · next unknown => simpa using fun mine theirs => absurd (known_eq_known mine theirs) unknown

theorem scored_names (a : Answer) : a.Scored a.scores.names := by
  intro c hc
  rw [score?, ← SortedTable.contains_eq_isSome]
  simpa [SortedTable.contains] using hc

/-- Every criterion for which an answer has a score is among its own. -/
theorem mem_names_of_scored (h : a.Scored criteria) : criteria ⊆ a.scores.names := by
  intro c hc
  have scored := h c hc
  rw [score?, ← SortedTable.contains_eq_isSome] at scored
  simpa [SortedTable.contains] using scored

theorem dominatedBy_self_iff :
    a.dominatedBy a criteria = true ↔ a.Scored criteria ∧ ¬a.Numeric criteria := by
  rw [dominatedBy_iff]
  constructor
  · rintro ⟨scored, _, _, c, hc, x, hx, y, hy, different⟩
    obtain rfl := Option.mem_unique hx hy
    refine ⟨scored, fun numeric => ?_⟩
    rw [Score.beq_self_iff.mpr (numeric c hc x hx)] at different
    contradiction
  · rintro ⟨scored, notNumeric⟩
    have irrefl : a.NowhereLess a criteria := by
      intro c _ x hx y hy less
      obtain rfl := Option.mem_unique hx hy
      exact lt_irrefl _ (Score.lt_iff.mp less).2.2
    refine ⟨scored, scored, irrefl, ?_⟩
    unfold Numeric at notNumeric
    push Not at notNumeric
    obtain ⟨c, hc, x, hx, noNumber⟩ := notNumeric
    exact ⟨c, hc, x, hx, x, hx, Bool.eq_false_iff.mpr (mt Score.beq_self_iff.mp noNumber)⟩

/-- Two answers dominate each other only by scores that are not numbers. The criteria of the two
comparisons may come in another order. -/
theorem dominatedBy_both_iff (same : ∀ c, c ∈ criteria ↔ c ∈ more) :
    a.dominatedBy b criteria = true ∧ b.dominatedBy a more = true ↔
      a.Scored criteria ∧ b.Scored criteria ∧ a.Tied b criteria ∧
        ¬(a.Numeric criteria ∧ b.Numeric criteria) := by
  have turned : b.dominatedBy a more = true ↔
      b.Scored criteria ∧ a.Scored criteria ∧ b.NowhereLess a criteria ∧ b.Differ a criteria := by
    simp only [dominatedBy_iff, Scored, NowhereLess, Differ, same]
  rw [dominatedBy_iff, turned]
  constructor
  · rintro ⟨⟨mine, theirs, down, differ⟩, _, _, up, _⟩
    -- Numbers of which neither is less are equal, so it is not by numbers that the answers differ.
    have tied : a.Tied b criteria := by
      intro c hc x hx y hy numberX numberY
      by_contra different
      rcases Score.lt_or_lt numberX numberY (Bool.eq_false_iff.mpr different) with less | more
      · exact down c hc x hx y hy less
      · exact up c hc y hy x hx more
    refine ⟨mine, theirs, tied, ?_⟩
    rintro ⟨numericA, numericB⟩
    obtain ⟨c, hc, x, hx, y, hy, different⟩ := differ
    have equal := tied c hc x hx y hy (numericA c hc x hx) (numericB c hc y hy)
    rw [equal] at different
    contradiction
  · rintro ⟨mine, theirs, tied, notNumeric⟩
    have apart : ∀ c ∈ criteria, ∀ x ∈ a.score? c, ∀ y ∈ b.score? c, ¬x < y ∧ ¬y < x := by
      intro c hc x hx y hy
      constructor
      · intro less
        obtain ⟨numberX, numberY, places⟩ := Score.lt_iff.mp less
        exact places.ne (Score.beq_iff.mp (tied c hc x hx y hy numberX numberY)).2.2
      · intro more
        obtain ⟨numberY, numberX, places⟩ := Score.lt_iff.mp more
        exact places.ne' (Score.beq_iff.mp (tied c hc x hx y hy numberX numberY)).2.2
    obtain ⟨c, hc, x, hx, y, hy, noNumbers⟩ : ∃ c ∈ criteria, ∃ x ∈ a.score? c, ∃ y ∈ b.score? c,
        ¬(x.isNaN = false ∧ y.isNaN = false) := by
      by_contra all
      push Not at all
      refine notNumeric ⟨fun c hc x hx => ?_, fun c hc y hy => ?_⟩
      · obtain ⟨y, hy⟩ := Option.isSome_iff_exists.mp (theirs c hc)
        exact (all c hc x hx y hy).1
      · obtain ⟨x, hx⟩ := Option.isSome_iff_exists.mp (mine c hc)
        exact (all c hc x hx y hy).2
    have differ : (x == y) = false ∧ (y == x) = false := by
      constructor
      · exact Bool.eq_false_iff.mpr fun equal =>
          noNumbers ⟨(Score.beq_iff.mp equal).1, (Score.beq_iff.mp equal).2.1⟩
      · exact Bool.eq_false_iff.mpr fun equal =>
          noNumbers ⟨(Score.beq_iff.mp equal).2.1, (Score.beq_iff.mp equal).1⟩
    exact ⟨⟨mine, theirs, fun c hc x hx y hy => (apart c hc x hx y hy).1,
        ⟨c, hc, x, hx, y, hy, differ.1⟩⟩,
      theirs, mine, fun c hc y hy x hx => (apart c hc x hx y hy).2, ⟨c, hc, y, hy, x, hx, differ.2⟩⟩

/-- Dominance goes on over an answer whose scores are numbers, also when the second comparison has
further criteria. -/
theorem dominatedBy_trans (numeric : b.Numeric criteria) (within : criteria ⊆ more)
    (first : a.dominatedBy b criteria = true) (second : b.dominatedBy c more = true) :
    a.dominatedBy c criteria = true := by
  rw [dominatedBy_iff] at first second ⊢
  obtain ⟨mine, between, down, k, hk, x, hx, y, hy, different⟩ := first
  obtain ⟨_, theirs, further, _⟩ := second
  have scored : c.Scored criteria := fun k hk => theirs k (within hk)
  -- The score in the middle is a number, and so the comparisons on its sides join.
  have steps : ∀ k ∈ criteria, ∀ x ∈ a.score? k, ∀ z ∈ c.score? k,
      ∃ y ∈ b.score? k, y.isNaN = false ∧ ¬x < y ∧ ¬y < z := by
    intro k hk x hx z hz
    obtain ⟨y, hy⟩ := Option.isSome_iff_exists.mp (between k hk)
    exact ⟨y, hy, numeric k hk y hy, down k hk x hx y hy, further k (within hk) y hy z hz⟩
  refine ⟨mine, scored, ?_, ?_⟩
  · intro k hk x hx z hz
    obtain ⟨y, _, number, xy, yz⟩ := steps k hk x hx z hz
    exact Score.not_lt_trans number xy yz
  · obtain ⟨z, hz⟩ := Option.isSome_iff_exists.mp (scored k hk)
    obtain ⟨y', hy', number, xy, yz⟩ := steps k hk x hx z hz
    obtain rfl := Option.mem_unique hy hy'
    refine ⟨k, hk, x, hx, z, hz, Bool.eq_false_iff.mpr fun back => ?_⟩
    rw [Score.beq_of_beq_end number xy yz back] at different
    contradiction

/-- Dominance is irreflexive, asymmetric and transitive as far as the scores are numbers, under given
criteria and under those that each answer brings. An answer is dominated by itself exactly when it
has a score under each criterion and one of them is not a number; two answers dominate each other
exactly when they have all scores, the numbers among them are equal and some score is not a number. -/
theorem dominance_laws (a b c : Answer) (criteria : List String) :
    ((a.dominatedBy a criteria = true ↔ a.Scored criteria ∧ ¬a.Numeric criteria) ∧
      (a.dominatedBy b criteria = true ∧ b.dominatedBy a criteria = true ↔
        a.Scored criteria ∧ b.Scored criteria ∧ a.Tied b criteria ∧
          ¬(a.Numeric criteria ∧ b.Numeric criteria)) ∧
      (b.Numeric criteria → a.dominatedBy b criteria = true → b.dominatedBy c criteria = true →
        a.dominatedBy c criteria = true)) ∧
    ((a.dominatedByKnown a = true ↔ ¬a.Numeric a.scores.names) ∧
      (a.dominatedByKnown b = true ∧ b.dominatedByKnown a = true ↔
        a.Scored b.scores.names ∧ b.Scored a.scores.names ∧ a.Tied b a.scores.names ∧
          ¬(a.Numeric a.scores.names ∧ b.Numeric b.scores.names)) ∧
      (b.Numeric b.scores.names → a.dominatedByKnown b = true → b.dominatedByKnown c = true →
        a.dominatedByKnown c = true)) := by
  refine ⟨⟨dominatedBy_self_iff, dominatedBy_both_iff fun _ => Iff.rfl,
    fun numeric => dominatedBy_trans numeric (List.Subset.refl _)⟩, ?_, ?_, ?_⟩
  · rw [dominatedByKnown, dominatedBy_self_iff, and_iff_right a.scored_names]
  · unfold dominatedByKnown
    constructor
    · intro both
      have theirs : b.Scored a.scores.names := (dominatedBy_iff.mp both.1).2.1
      have mine : a.Scored b.scores.names := (dominatedBy_iff.mp both.2).2.1
      have same : ∀ c, c ∈ a.scores.names ↔ c ∈ b.scores.names := fun c =>
        ⟨fun h => mem_names_of_scored theirs h, fun h => mem_names_of_scored mine h⟩
      obtain ⟨_, _, tied, notNumeric⟩ := (dominatedBy_both_iff same).mp both
      refine ⟨mine, theirs, tied, ?_⟩
      simpa only [Numeric, same] using notNumeric
    · rintro ⟨mine, theirs, tied, notNumeric⟩
      have same : ∀ c, c ∈ a.scores.names ↔ c ∈ b.scores.names := fun c =>
        ⟨fun h => mem_names_of_scored theirs h, fun h => mem_names_of_scored mine h⟩
      refine (dominatedBy_both_iff same).mpr ⟨a.scored_names, theirs, tied, ?_⟩
      simpa only [Numeric, same] using notNumeric
  · intro numeric first second
    have theirs : b.Scored a.scores.names := (dominatedBy_iff.mp first).2.1
    have within : a.scores.names ⊆ b.scores.names := mem_names_of_scored theirs
    exact dominatedBy_trans (fun k hk => numeric k (within hk)) within first second

/-- An answer with the given scores. -/
def scoredBy (scores : List (String × Float)) : Answer :=
  { Answer.new ⟨1⟩ .epoch .empty with scores := .ofList scores }

/-- Each of three answers has fewer criteria than the next; one score is infinite, two are zeros of
unlike sign. -/
theorem dominatedByKnown_of_chain :
    let a := scoredBy [("x", 1 / 0), ("y", 0)]
    let b := scoredBy [("x", 1), ("y", -0), ("z", 2)]
    let c := scoredBy [("x", 1), ("y", 0), ("z", 1), ("w", 5)]
    b.Numeric b.scores.names ∧ a.dominatedByKnown b = true ∧ b.dominatedByKnown c = true ∧
      a.dominatedByKnown c = true := by
  intro a b c
  have numeric : b.Numeric b.scores.names := by
    unfold Numeric
    decide +kernel
  have first : a.dominatedByKnown b = true := by decide +kernel
  have second : b.dominatedByKnown c = true := by decide +kernel
  exact ⟨numeric, first, second,
    (dominance_laws a b c []).2.2.2 numeric first second⟩

/-- With scores that are not numbers all three laws fail: the answer dominates itself, it and another
one dominate each other, and dominance over it leads from a smaller score to a larger one. -/
theorem dominatedBy_not_strict_of_nan :
    let nan := scoredBy [("x", 0 / 0)]
    let less := scoredBy [("x", 1)]
    let more := scoredBy [("x", 2)]
    (scoredBy []).setScore "x" (0 / 0) = .ok nan ∧
      nan.dominatedBy nan ["x"] = true ∧ nan.dominatedByKnown nan = true ∧
      (less.dominatedBy nan ["x"] = true ∧ nan.dominatedBy less ["x"] = true) ∧
      (less.dominatedBy nan ["x"] = true ∧ nan.dominatedBy more ["x"] = true ∧
        less.dominatedBy more ["x"] = false) := by
  decide +kernel

end Answer

end Evolution
