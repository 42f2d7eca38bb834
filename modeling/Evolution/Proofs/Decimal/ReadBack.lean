import Evolution.Proofs.Decimal.Nearest
import Evolution.Proofs.Decimal.Reading
import Evolution.Proofs.Decimal.Shortest

/-! Floats are read from the way they are written. Whatever the style, the text of a float is read as
the decimal that was chosen for it, so a finite float is read as a finite one. -/

namespace Evolution

namespace Decimal

open Binary

section Magnitude

variable {whole fraction rest : List Char}

/-- The text goes on with something else than a digit. -/
def StopsDigits (rest : List Char) : Prop := ∀ c ∈ rest.head?, c.isDigit = false

theorem stopsDigits_nil : StopsDigits [] := nofun

theorem span_digits (digits : ∀ c ∈ whole, c.isDigit = true) (stops : StopsDigits rest) :
    (whole ++ rest).takeWhile Char.isDigit = whole ∧
      (whole ++ rest).dropWhile Char.isDigit = rest := by
  rw [List.takeWhile_append_of_pos digits, List.dropWhile_append_of_pos digits]
  cases rest with
  | nil => simp
  | cons c more =>
    have other : c.isDigit = false := stops c rfl
    simp [other]

/-- The text starts with a digit and is read as the float nearest to the number. -/
structure ReadsAs (text : List Char) (v : ℚ) : Prop where
  starts : ∃ c ∈ text.head?, c.isDigit = true
  reads : ∃ m e, readMagnitude? text = some (nearest m e) ∧ (m : ℚ) * 10 ^ e = v

theorem starts_append (digits : ∀ c ∈ whole, c.isDigit = true) (filled : whole ≠ []) :
    ∃ c ∈ (whole ++ rest).head?, c.isDigit = true := by
  obtain ⟨c, more, rfl⟩ := List.exists_cons_of_ne_nil filled
  exact ⟨c, rfl, digits c (by simp)⟩

/-- Digits to both sides of a point. -/
theorem readsAs_point {e : Int} (digits : ∀ c ∈ whole, c.isDigit = true) (filled : whole ≠ [])
    (digits' : ∀ c ∈ fraction, c.isDigit = true) (stops : StopsDigits rest)
    (exponent : readExponent? rest = some e) :
    ReadsAs (whole ++ '.' :: (fraction ++ rest))
      (ofDigits (whole ++ fraction) * 10 ^ (e - fraction.length)) := by
  have point : StopsDigits ('.' :: (fraction ++ rest)) := by
    rintro c ⟨⟩
    rfl
  obtain ⟨first, behind⟩ := span_digits digits point
  obtain ⟨second, last⟩ := span_digits digits' stops
  have some : whole.isEmpty = false := List.isEmpty_eq_false_iff.mpr filled
  refine ⟨starts_append digits filled, ofDigits (whole ++ fraction), e - fraction.length, ?_, rfl⟩
  simp only [readMagnitude?, first, behind, second, last, some, exponent]
  rfl

/-- Digits without a point. -/
theorem readsAs_whole {e : Int} (digits : ∀ c ∈ whole, c.isDigit = true) (filled : whole ≠ [])
    (stops : StopsDigits rest) (noPoint : rest.head? ≠ some '.')
    (exponent : readExponent? rest = some e) :
    ReadsAs (whole ++ rest) (ofDigits whole * 10 ^ e) := by
  obtain ⟨first, behind⟩ := span_digits digits stops
  have some : whole.isEmpty = false := List.isEmpty_eq_false_iff.mpr filled
  refine ⟨starts_append digits filled, ofDigits whole, e, ?_, rfl⟩
  unfold readMagnitude?
  rw [first, behind]
  simp only [some]
  split
  · exact absurd (Eq.refl _) noPoint
  · simp [exponent]

end Magnitude

theorem readExponent?_mark (power : Int) : readExponent? ('e' :: writeInt power) = some power := by
  rw [readExponent?, if_pos (by decide), readInt?_writeInt]

theorem ofDigits_append_zeros (digits : List Char) (count : ℕ) :
    ofDigits (digits ++ List.replicate count '0') = ofDigits digits * 10 ^ count := by
  induction count with
  | zero => simp
  | succ count ih =>
    rw [List.replicate_succ', ← List.append_assoc, ofDigits, List.foldl_append, ← ofDigits, ih]
    simp [List.foldl]
    ring

theorem isDigit_zero : ∀ c ∈ ['0'], c.isDigit = true := List.forall_mem_singleton.mpr rfl

theorem isDigit_of_mem_replicate {count : ℕ} :
    ∀ c ∈ List.replicate count '0', c.isDigit = true := by
  intro c member
  rw [(List.mem_replicate.mp member).2]
  rfl

section Digits

variable {digits : List Char}

/-- Digits behind the point, after zeros. -/
theorem readsAs_behind_zeros (each : ∀ c ∈ digits, c.isDigit = true) (count : ℕ) :
    ReadsAs ('0' :: '.' :: (List.replicate count '0' ++ digits))
      (ofDigits digits * 10 ^ (-(count + digits.length) : ℤ)) := by
  have behind : ∀ c ∈ List.replicate count '0' ++ digits, c.isDigit = true :=
    List.forall_mem_append.mpr ⟨isDigit_of_mem_replicate, each⟩
  have read := readsAs_point isDigit_zero (by simp) behind stopsDigits_nil rfl
  have value : ofDigits (['0'] ++ (List.replicate count '0' ++ digits)) = ofDigits digits := by
    have lead : ['0'] ++ (List.replicate count '0' ++ digits) =
        List.replicate (count + 1) '0' ++ digits := by
      rw [List.replicate_succ]
      rfl
    rw [lead, ofDigits_zeros_append]
  rw [value, List.append_nil, List.length_append, List.length_replicate, zero_sub,
    Nat.cast_add] at read
  exact read

/-- Digits before zeros, and with a fraction of zero or without. -/
theorem readsAs_before_zeros (each : ∀ c ∈ digits, c.isDigit = true) (filled : digits ≠ [])
    (fraction : Bool) (count : ℕ) :
    ReadsAs (digits ++ List.replicate count '0' ++ if fraction then ['.', '0'] else [])
      (ofDigits digits * 10 ^ (count : ℤ)) := by
  have whole : ∀ c ∈ digits ++ List.replicate count '0', c.isDigit = true :=
    List.forall_mem_append.mpr ⟨each, isDigit_of_mem_replicate⟩
  have filled' : digits ++ List.replicate count '0' ≠ [] := by simp [filled]
  have value : (ofDigits digits : ℚ) * 10 ^ (count : ℤ) =
      ofDigits (digits ++ List.replicate count '0') := by
    rw [zpow_natCast, ofDigits_append_zeros]
    push_cast
    rfl
  rw [value]
  cases fraction with
  | false =>
    have read := readsAs_whole whole filled' stopsDigits_nil (by simp) rfl
    rw [zpow_zero, mul_one] at read
    exact read
  | true =>
    have read := readsAs_point whole filled' isDigit_zero stopsDigits_nil rfl
    have more := ofDigits_append_zeros (digits ++ List.replicate count '0') 1
    have one : (0 : ℤ) - ['0'].length = -1 := rfl
    rw [List.replicate_one] at more
    rw [more, one, Nat.cast_mul, Nat.cast_pow, pow_one, Nat.cast_ofNat, zpow_neg_one, mul_assoc,
      mul_inv_cancel₀ (by norm_num), mul_one] at read
    exact read

theorem readsAs_positional (each : ∀ c ∈ digits, c.isDigit = true) (filled : digits ≠ [])
    (fraction : Bool) (place : Int) :
    ReadsAs (positional fraction digits place)
      (ofDigits digits * 10 ^ (place - digits.length)) := by
  unfold positional
  split
  · next before =>
    have exponent : place - digits.length = -((-place).toNat + digits.length) := by omega
    rw [exponent]
    exact readsAs_behind_zeros each _
  next behind =>
  simp only
  split
  · next short =>
    have exponent : place - digits.length = (place.toNat - digits.length : ℕ) := by omega
    rw [exponent]
    exact readsAs_before_zeros each filled fraction _
  · next long =>
    have some : digits.take place.toNat ≠ [] := by
      simp [filled]
      omega
    have first : ∀ c ∈ digits.take place.toNat, c.isDigit = true := fun c member =>
      each c (List.mem_of_mem_take member)
    have second : ∀ c ∈ digits.drop place.toNat, c.isDigit = true := fun c member =>
      each c (List.mem_of_mem_drop member)
    have read := readsAs_point first some second stopsDigits_nil rfl
    have exponent : (0 : ℤ) - (digits.drop place.toNat).length = place - digits.length := by
      rw [List.length_drop]
      omega
    rw [List.take_append_drop, exponent, List.append_nil] at read
    exact read

theorem readsAs_exponential (each : ∀ c ∈ digits, c.isDigit = true) (filled : digits ≠ [])
    (power : Int) :
    ReadsAs (exponential digits power) (ofDigits digits * 10 ^ (power + 1 - digits.length)) := by
  have stops : StopsDigits ('e' :: writeInt power) := by
    intro c head
    obtain rfl : 'e' = c := by simpa using head
    rfl
  have mark := readExponent?_mark power
  cases digits with
  | nil => exact absurd rfl filled
  | cons first rest =>
    obtain ⟨head, others⟩ := List.forall_mem_cons.mp each
    have alone : ∀ c ∈ [first], c.isDigit = true := List.forall_mem_singleton.mpr head
    cases rest with
    | nil =>
      have read := readsAs_whole alone (by simp) stops (by simp) mark
      have exponent : power + 1 - ([first].length : ℤ) = power := by simp
      rw [exponent]
      exact read
    | cons second more =>
      have read := readsAs_point alone (by simp) others stops mark
      have exponent : power - ((second :: more).length : ℤ) =
          power + 1 - (first :: second :: more).length := by simp
      rw [exponent] at read
      exact read

end Digits

/-- A decimal is read as the float nearest to it, whatever the style it is written in. -/
theorem readsAs_write (style : Style) (d : Scaled) : ReadsAs (d.write style) d.value := by
  have each : ∀ c ∈ Nat.toDigits 10 d.digits, c.isDigit = true := fun c member =>
    Nat.isDigit_of_mem_toDigits (by decide) (by decide) member
  have filled : Nat.toDigits 10 d.digits ≠ [] := Nat.toDigits_ne_nil
  have exponent (place : ℤ) (h : place = d.exponent + (Nat.toDigits 10 d.digits).length - 1 + 1) :
      place - (Nat.toDigits 10 d.digits).length = d.exponent := by omega
  unfold Scaled.write
  simp only
  split
  · have read := readsAs_positional each filled style.fraction
      (d.exponent + (Nat.toDigits 10 d.digits).length - 1 + 1)
    rw [exponent _ rfl, ofDigits_toDigits] at read
    exact read
  · have read := readsAs_exponential each filled
      (d.exponent + (Nat.toDigits 10 d.digits).length - 1)
    rw [exponent _ rfl, ofDigits_toDigits] at read
    exact read

theorem takeSign_of_starts {text : List Char} (h : ∃ c ∈ text.head?, c.isDigit = true) :
    takeSign text = (false, text) := by
  obtain ⟨c, head, digit⟩ := h
  unfold takeSign
  split
  · obtain rfl : '-' = c := by simpa using head
    exact absurd digit (by decide)
  · obtain rfl : '+' = c := by simpa using head
    exact absurd digit (by decide)
  · rfl

theorem isFinite_neg {x : Float} (h : x.isFinite = true) : (-x).isFinite = true := by
  obtain ⟨a, number⟩ := isFinite_iff.mp h
  exact isFinite_iff.mpr ⟨-a, number?_neg number⟩

/-- A number with room is read as a finite float, with a sign and without. -/
theorem ReadsAs.exists_readFloat? {text : List Char} {v : ℚ} (h : ReadsAs text v) (positive : 0 ≤ v)
    (less : v < room) :
    ∃ y, y.isFinite = true ∧ readFloat? text = some y ∧ readFloat? ('-' :: text) = some (-y) := by
  obtain ⟨m, e, read, rfl⟩ := h.reads
  have rounded := rounds_nearest m e
  obtain ⟨w, number, -⟩ := rounded.exists_number? (by rwa [abs_of_nonneg positive])
  refine ⟨nearest m e, isFinite_iff.mpr ⟨w, number⟩, ?_, ?_⟩
  · rw [readFloat?, takeSign_of_starts h.starts]
    simp [read]
  · simp [readFloat?, takeSign, read]

theorem readsAs_zero (fraction : Bool) :
    ReadsAs (if fraction then ['0', '.', '0'] else ['0']) 0 := by
  have read := readsAs_positional isDigit_zero (by simp) fraction 1
  have none : (ofDigits ['0'] : ℚ) = 0 := by simp [ofDigits]
  rw [none, zero_mul] at read
  cases fraction <;> exact read

/-- A finite float is written as a decimal with room, after a sign if it is negative. -/
theorem exists_write_eq (style : Style) {x : Float} (h : x.isFinite = true) :
    ∃ text v, ReadsAs text v ∧ 0 ≤ v ∧ v < room ∧
      ((write style x).toList = text ∨ (write style x).toList = '-' :: text) := by
  obtain ⟨a, number⟩ := isFinite_iff.mp h
  rcases number?_eq_some number with ⟨s, zero, -⟩ | ⟨s, m, e, pos, finite, canonical, high, -⟩
  · have some : 0 < room := by
      rw [room_eq]
      positivity
    refine ⟨_, 0, readsAs_zero style.fraction, le_rfl, some, ?_⟩
    unfold write
    rw [zero]
    cases s with
    | positive => exact .inl String.toList_ofList
    | negative => exact .inr String.toList_ofList
  · have positive : 0 ≤ (shortest style.tie m e).value := by
      rw [Scaled.value]
      positivity
    refine ⟨_, _, readsAs_write style _, positive, value_shortest_lt style.tie canonical pos high, ?_⟩
    unfold write
    rw [finite]
    cases s with
    | positive => exact .inl String.toList_ofList
    | negative => exact .inr String.toList_ofList

/-- A finite float is read as a finite float from the way it is written. -/
theorem exists_readFloat?_write (style : Style) {x : Float} (h : x.isFinite = true) :
    ∃ y, readFloat? (write style x).toList = some y ∧ y.isFinite = true := by
  obtain ⟨text, v, read, positive, less, written⟩ := exists_write_eq style h
  obtain ⟨y, finite, plain, negated⟩ := read.exists_readFloat? positive less
  rcases written with written | written
  · exact ⟨y, by rw [written, plain], finite⟩
  · exact ⟨-y, by rw [written, negated], isFinite_neg finite⟩

end Decimal

end Evolution
