import Evolution.Proofs.Binary.Whole
import Evolution.Proofs.Evaluation.Readings

/-! What a score of zero says. An expectation that is met costs nothing and one that is missed costs one
or more, and sums of such costs do not vanish when they are rounded, so the score is zero exactly if all
that is measured is met. Integers are compared as floats: two of them that become one float count as
equal. -/

namespace Evolution

open Binary

/-- An integer or a truth value. -/
def Value.IsDiscrete (v : Value) : Prop := (∃ n, v = .int n) ∨ ∃ b, v = .bool b

/-- A reading counts as what is expected: it is the same value, or both are integers that become one
float. -/
def Meets (reading : Option Value) (expected : Value) : Prop :=
  reading = some expected ∨
    ∃ m n, reading = some (.int m) ∧ expected = .int n ∧ Float.ofInt m.toInt = Float.ofInt n.toInt

/-- A cost of nothing if something is met, and of one or more if it is not. -/
def Charges (met : Prop) (x : Float) : Prop := met ∧ x = 0 ∨ ¬met ∧ 1 ≤ x

namespace Charges

variable {met other : Prop} {x y : Float}

theorem nothing : Charges True 0 := .inl ⟨trivial, rfl⟩

theorem congr (h : Charges met x) (same : met ↔ other) : Charges other x := by
  rwa [Charges, ← same]

theorem add (hx : Charges met x) (hy : Charges other y) : Charges (met ∧ other) (x + y) := by
  rcases hx with ⟨holds, rfl⟩ | ⟨missed, above⟩ <;> rcases hy with ⟨holds', rfl⟩ | ⟨missed', above'⟩
  · exact .inl ⟨⟨holds, holds'⟩, rfl⟩
  · exact .inr ⟨fun both => missed' both.2, by rwa [zero_add_of_one_le above']⟩
  · exact .inr ⟨fun both => missed both.1, by rwa [add_zero_of_one_le above]⟩
  · exact .inr ⟨fun both => missed both.1, one_le_add above above'⟩

/-- Along a running sum the cost is that of all the items together. -/
theorem foldl {α : Type} {items : List α} {step : Float → α → Float} (fine : α → Prop)
    (start : Charges met x)
    (each : ∀ i ∈ items, ∀ met sum, Charges met sum → Charges (met ∧ fine i) (step sum i)) :
    Charges (met ∧ ∀ i ∈ items, fine i) (items.foldl step x) := by
  induction items generalizing met x with
  | nil => exact start.congr (by simp)
  | cons i rest ih =>
    rw [List.forall_mem_cons] at each
    exact (ih (each.1 _ _ start) each.2).congr (by simp [and_assoc])

/-- Neither rule loses a cost. -/
theorem conclude (h : Charges met x) (rule : ScoreRule) {n : ℕ} (pos : 0 < n) (few : n < 2 ^ 64) :
    (rule.conclude x n == 0) = true ↔ met := by
  obtain ⟨m, e, pos', divisor, above, low⟩ := exists_unpack_ofNat pos few
  cases rule with
  | meanAbsoluteError =>
    rw [ScoreRule.conclude]
    rcases h with ⟨holds, rfl⟩ | ⟨missed, high⟩
    · rw [zero_div divisor]
      exact iff_of_true rfl holds
    · rw [div_beq_zero high divisor above low]
      exact iff_of_false nofun missed
  | sumSquaredError =>
    rw [ScoreRule.conclude]
    rcases h with ⟨holds, rfl⟩ | ⟨missed, high⟩
    · exact iff_of_true rfl holds
    · rw [beq_zero_of_one_le high]
      exact iff_of_false nofun missed

theorem weigh (h : Charges met x) (rule : ScoreRule) : Charges met (rule.weigh x) := by
  cases rule with
  | meanAbsoluteError => exact h
  | sumSquaredError =>
    rcases h with ⟨holds, rfl⟩ | ⟨missed, above⟩
    · exact .inl ⟨holds, rfl⟩
    · exact .inr ⟨missed, one_le_mul above above⟩

end Charges

theorem natAbs_toInt_lt (n : Int64) : n.toInt.natAbs < 2 ^ 64 := by
  have := n.le_toInt
  have := n.toInt_lt
  omega

/-- The distance of a reading from what is expected. -/
theorem charges_deviation {observed expected : Value} (h : observed.IsDiscrete)
    (h' : expected.IsDiscrete) :
    Charges (Meets (some observed) expected) (deviation observed expected) := by
  rcases h with ⟨m, rfl⟩ | ⟨a, rfl⟩ <;> rcases h' with ⟨n, rfl⟩ | ⟨b, rfl⟩
  · have meets : Meets (some (.int m)) (.int n) ↔ Float.ofInt m.toInt = Float.ofInt n.toInt := by
      constructor
      · rintro (same | ⟨_, _, ⟨⟩, ⟨⟩, same⟩)
        · cases same
          rfl
        · exact same
      · exact fun same => .inr ⟨m, n, rfl, rfl, same⟩
    exact (abs_sub_ofInt (natAbs_toInt_lt m) (natAbs_toInt_lt n)).imp
      (.imp_left meets.mpr) (.imp_left (mt meets.mp))
  · have apart : deviation (.int m) (.bool b) = 1 := rfl
    exact .inr ⟨by simp [Meets], apart ▸ one_le_one⟩
  · have apart : deviation (.bool a) (.int n) = 1 := rfl
    exact .inr ⟨by simp [Meets], apart ▸ one_le_one⟩
  · have compared : deviation (.bool a) (.bool b) = if a == b then 0 else 1 := rfl
    by_cases same : a = b
    · exact .inl ⟨.inl (same ▸ rfl), compared.trans (if_pos (beq_iff_eq.mpr same))⟩
    · exact .inr ⟨by simp [Meets, same], by simp [compared, same, one_le_one]⟩

/-- Below the fifty-third power of two every integer has a float of its own. -/
theorem meets_iff_eq {reading : Option Value} {expected : Value}
    (small : ∀ n, expected = .int n → n.toInt.natAbs < 2 ^ 53) :
    Meets reading expected ↔ reading = some expected := by
  refine ⟨fun meets => ?_, .inl⟩
  rcases meets with same | ⟨m, n, rfl, rfl, same⟩
  · exact same
  · rw [Int64.toInt_inj.mp (ofInt_inj (natAbs_toInt_lt m) (small n rfl) same)]

/-- Integers and truth values, and no reading at all, are what is compared. -/
def Comparable (reading : Option Value) (expected : Value) : Prop :=
  expected.IsDiscrete ∧ ∀ v, reading = some v → v.IsDiscrete

namespace Evaluator

variable {e : Evaluator} {cases : List TestCase} {p : Program}

/-- Where an expectation of the case is measured, its reading is accepted. -/
def ReadIn (e : Evaluator) (p : Program) (accepted : Option Value → Value → Prop) (c : TestCase) :
    Prop :=
  ∀ output expected, (output, expected) ∈ c.expectations.entries →
    ∀ reading, (e.observe p c).get? output = some reading → accepted reading expected

theorem charges_cost (penalty : 1 ≤ e.options.penalty) {reading : Option Value} {expected : Value}
    {readings : Readings} {output : String} (read : readings.get? output = some reading)
    (comparable : Comparable reading expected) :
    ∃ x, e.cost readings output expected = some x ∧ Charges (Meets reading expected) x := by
  cases reading with
  | none =>
    refine ⟨e.options.penalty, by simp [cost, read], .inr ⟨?_, penalty⟩⟩
    simp [Meets]
  | some observed =>
    refine ⟨_, by rw [cost, read]; rfl, ?_⟩
    exact (charges_deviation (comparable.2 observed rfl) comparable.1).weigh e.options.rule

theorem charges_errorIn (penalty : 1 ≤ e.options.penalty) {c : TestCase}
    (comparable : e.ReadIn p Comparable c) : Charges (e.ReadIn p Meets c) (e.errorIn p c) := by
  let fine (entry : String × Value) : Prop :=
    ∀ reading, (e.observe p c).get? entry.1 = some reading → Meets reading entry.2
  refine (Charges.nothing.foldl fine fun entry member met sum charges => ?_).congr ?_
  · cases read : (e.observe p c).get? entry.1 with
    | none =>
      have free : e.cost (e.observe p c) entry.1 entry.2 = none := by rw [cost, read]; rfl
      simp only [free]
      exact charges.congr (by simp [fine, read])
    | some reading =>
      obtain ⟨x, costs, charged⟩ :=
        charges_cost penalty read (comparable entry.1 entry.2 member reading read)
      simp only [costs]
      exact (charges.add charged).congr (by simp [fine, read])
  · simp [fine, ReadIn]

/-- A score is zero exactly if every measured expectation is met. -/
theorem scoreOf_beq_zero_iff (given : cases ≠ []) (few : cases.length < 2 ^ 64)
    (penalty : 1 ≤ e.options.penalty) (comparable : ∀ c ∈ cases, e.ReadIn p Comparable c) :
    (e.scoreOf cases p == 0) = true ↔ ∀ c ∈ cases, e.ReadIn p Meets c := by
  have total : Charges (True ∧ ∀ c ∈ cases, e.ReadIn p Meets c)
      (cases.foldl (fun sum c => sum + e.errorIn p c) 0) :=
    Charges.nothing.foldl _ fun c member _ _ charges =>
      charges.add (charges_errorIn penalty (comparable c member))
  rw [scoreOf_eq, total.conclude e.options.rule (List.length_pos_iff.mpr given) few, true_and]

theorem readIn_meets_iff {c : TestCase}
    (small : ∀ output n, (output, .int n) ∈ c.expectations.entries → n.toInt.natAbs < 2 ^ 53) :
    e.ReadIn p Meets c ↔ e.ReadIn p (fun reading expected => reading = some expected) c :=
  forall₃_congr fun output _ member => forall₂_congr fun _ _ =>
    meets_iff_eq fun n same => small output n (same ▸ member)

/-- With a penalty of one or more, and where only integers and truth values are compared, an evaluation
stores a score of zero exactly if every measured expectation was met. If the expected integers are below
the size at which some share a float, that is exactly if every one was read as the value itself. The
number of cases is that of a list in memory, so it has sixty-four bits. -/
theorem evaluateInPlace_scores_zero_iff (e : Evaluator) (batch : List Answer) (cases : List TestCase)
    (given : cases ≠ []) (few : cases.length < 2 ^ 64)
    (covered : e.options.coverage = true → e.Covers cases) (penalty : 1 ≤ e.options.penalty)
    (comparable : ∀ a ∈ batch, ∀ c ∈ cases, e.ReadIn a.program Comparable c) :
    let done := e.evaluateInPlace batch cases
    done.outcome = .ok () ∧
    List.Forall₂ (fun before after => ∃ x, after.score? e.options.label = some x ∧
        ((x == 0) = true ↔ ∀ c ∈ cases, e.ReadIn before.program Meets c) ∧
        ((∀ c ∈ cases, ∀ output n, (output, .int n) ∈ c.expectations.entries →
            n.toInt.natAbs < 2 ^ 53) →
          ((x == 0) = true ↔ ∀ c ∈ cases,
            e.ReadIn before.program (fun reading expected => reading = some expected) c)))
      batch done.batch := by
  intro done
  have accepted : e.check cases = .ok () := check_eq_ok_iff.mpr ⟨given, covered⟩
  have evaluated : done = _ := evaluateInPlace_of_ok accepted
  rw [evaluated]
  refine ⟨rfl, ?_⟩
  rw [List.forall₂_map_right_iff, List.forall₂_same]
  intro a member
  have zero := scoreOf_beq_zero_iff given few penalty (comparable a member)
  refine ⟨e.scoreOf cases a.program, ?_, zero, fun small => zero.trans ?_⟩
  · rw [Answer.score?_withScore, if_pos rfl]
  · exact forall₂_congr fun c there => readIn_meets_iff (small c there)

/-- An answer that leaves the expected number on its stack. -/
theorem evaluateInPlace_scores_zero_of_twelve :
    let c : TestCase := ⟨.empty, .ofList [("y", .int 12)], .ofList [("y", .top "int")]⟩
    let a := Answer.new ⟨1⟩ .epoch (.ofPoint (.literal ⟨"int", "12"⟩))
    let done := byGauges.evaluateInPlace [a] [c]
    done.outcome = .ok () ∧ (done.batch[0]?.bind (·.score? "error")) = some 0 ∧
      byGauges.ReadIn a.program (fun reading expected => reading = some expected) c := by
  intro c a done
  have read : (byGauges.observe a.program c).get? "y" = some (some (.int 12)) := by decide +kernel
  have comparable : byGauges.ReadIn a.program Comparable c := by
    intro output expected filed reading found
    obtain ⟨rfl, rfl⟩ := Prod.mk.inj (List.mem_singleton.mp filed)
    obtain rfl := Option.some.inj (read.symm.trans found)
    exact ⟨.inl ⟨12, rfl⟩, fun v same => .inl ⟨12, (Option.some.inj same).symm⟩⟩
  have small : ∀ output n, (output, .int n) ∈ c.expectations.entries → n.toInt.natAbs < 2 ^ 53 := by
    intro output n filed
    obtain ⟨rfl, ⟨⟩⟩ := Prod.mk.inj (List.mem_singleton.mp filed)
    decide
  obtain ⟨ended, scored⟩ := evaluateInPlace_scores_zero_iff byGauges [a] [c] nofun (by decide) nofun
    (by decide +kernel) (by simpa using comparable)
  obtain ⟨b, rest, ⟨x, filed, -, exact⟩, -, batch⟩ := List.forall₂_cons_left_iff.mp scored
  have score : done.batch[0]?.bind (·.score? "error") = some 0 := by decide +kernel
  have filed' : b.score? "error" = some 0 := by
    have first : done.batch[0]? = some b := congrArg (fun batch : List Answer => batch[0]?) batch
    rwa [first] at score
  obtain rfl : x = 0 := Option.some.inj (filed.symm.trans filed')
  simp only [List.forall_mem_singleton] at exact
  exact ⟨ended, score, (exact small).mp (by decide +kernel)⟩

/-- Two integers that become one float: the reading is not the expected value, and costs nothing. -/
theorem zero_score_of_other_integer :
    let c := caseReading (some (.int 9007199254740992)) (.int 9007199254740993)
    let a := Answer.new ⟨1⟩ .epoch .empty
    (byGauges.evaluateInPlace [a] [c]).batch.map (·.score? "error") = [some 0] ∧
      ¬byGauges.ReadIn a.program (fun reading expected => reading = some expected) c := by
  intro c a
  refine ⟨by decide +kernel, fun met => ?_⟩
  have read : (byGauges.observe a.program c).get? "y" = some (some (.int 9007199254740992)) := rfl
  have same := met "y" (.int 9007199254740993) (List.mem_singleton.mpr rfl) _ read
  exact absurd same (by decide)

end Evaluator

end Evolution
