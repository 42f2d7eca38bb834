import Evolution.Calendar.Instant
import Evolution.Proofs.Decimal.Reading
import Mathlib.Algebra.Group.Nat.Defs
import Mathlib.Data.List.TakeWhile

/-! Instants are read back from their written form. Every part of it has a fixed width, or ends
before a mark, so each reader stops where the next part begins. -/

namespace Evolution

open Text

namespace Text

theorem trimStart_cons_of_isBlank {c : Char} (visible : isBlank c = false) (rest : List Char) :
    trimStart (c :: rest) = c :: rest := by
  rw [trimStart, List.dropWhile_cons, visible]
  rfl

end Text

namespace Date

theorem of?_self (d : Date) : Date.of? d.year d.month d.day = some d :=
  dif_pos d.valid

theorem bounds (d : Date) :
    (-262143 ≤ d.year ∧ d.year ≤ 262142) ∧ d.month < 10 ^ 2 ∧ d.day < 10 ^ 2 := by
  obtain ⟨year, month, day, valid⟩ := d
  simp only [isDate, Bool.and_eq_true, decide_eq_true_eq] at valid
  obtain ⟨⟨⟨⟨⟨low, high⟩, -⟩, twelve⟩, -⟩, last⟩ := valid
  have short : daysInMonth year month ≤ 31 := by
    unfold daysInMonth
    split
    · split <;> decide
    all_goals decide
  exact ⟨⟨low, high⟩, by dsimp only; omega, by dsimp only; omega⟩

end Date

namespace Instant

variable {n width : Nat} {rest : List Char}

theorem isDigit_of_mem_padded {c : Char} (member : c ∈ padded width n) : c.isDigit = true := by
  rcases List.mem_append.mp member with zero | digit
  · rw [(List.mem_replicate.mp zero).2]
    rfl
  · exact Nat.isDigit_of_mem_toDigits (by decide) (by decide) digit

theorem ofDigits_padded (width n : Nat) : Decimal.ofDigits (padded width n) = n := by
  rw [padded, Decimal.ofDigits_zeros_append, Decimal.ofDigits_toDigits]

theorem padded_ne_nil (width n : Nat) : padded width n ≠ [] := by
  simp [padded, Nat.toDigits_ne_nil]

theorem length_padded (positive : 0 < width) (fits : n < 10 ^ width) :
    (padded width n).length = width := by
  have short : (Nat.toDigits 10 n).length ≤ width :=
    (Nat.length_toDigits_le_iff (by decide) positive).mpr fits
  simp only [padded, List.length_append, List.length_replicate]
  omega

theorem padded_eq_cons (width n : Nat) :
    ∃ c more, padded width n = c :: more ∧ c.isDigit = true := by
  obtain ⟨c, more, shape⟩ := List.exists_cons_of_ne_nil (padded_ne_nil width n)
  exact ⟨c, more, shape, isDigit_of_mem_padded (shape ▸ List.mem_cons_self)⟩

theorem trimStart_padded (width n : Nat) (rest : List Char) :
    trimStart (padded width n ++ rest) = padded width n ++ rest := by
  obtain ⟨c, more, shape, digit⟩ := padded_eq_cons width n
  rw [shape, List.cons_append]
  exact trimStart_cons_of_isBlank (IsPlain.of_isDigit digit).isBlank _

theorem takeWhile_padded (width n : Nat) :
    (padded width n).takeWhile Char.isDigit = padded width n :=
  List.takeWhile_eq_self_iff.mpr fun _ member => isDigit_of_mem_padded member

theorem takeNumber?_padded (positive : 0 < width) (fits : n < 10 ^ width) (rest : List Char) :
    takeNumber? width (padded width n ++ rest) = some (n, rest) := by
  have length := length_padded positive fits
  have front : (padded width n ++ rest).take width = padded width n := List.take_left' length
  have back : (padded width n ++ rest).drop width = rest := List.drop_left' length
  have found : (padded width n).isEmpty = false := by
    simpa using padded_ne_nil width n
  simp only [takeNumber?, trimStart_padded, front, takeWhile_padded, found, ofDigits_padded,
    length, back]
  rfl

theorem takeMark?_cons {mark : Char} (visible : isBlank mark = false) (rest : List Char) :
    takeMark? mark (mark :: rest) = some rest := by
  rw [takeMark?, trimStart_cons_of_isBlank visible]
  exact if_pos rfl

theorem takeYear?_writeYear {year : Int} {mark : Char} (low : -262143 ≤ year)
    (high : year ≤ 262142) (mark_isDigit : mark.isDigit = false) (rest : List Char) :
    takeYear? (writeYear year ++ mark :: rest) = some (year, mark :: rest) := by
  -- After a sign all digits belong to the year, so it is the mark that ends them.
  have signed : takeYear?.digits (padded 4 year.natAbs ++ mark :: rest) =
      some (year.natAbs, mark :: rest) := by
    have run : (padded 4 year.natAbs ++ mark :: rest).takeWhile Char.isDigit =
        padded 4 year.natAbs := by
      rw [List.takeWhile_append_of_pos fun _ member => isDigit_of_mem_padded member,
        List.takeWhile_cons, mark_isDigit]
      simp
    have left : (padded 4 year.natAbs ++ mark :: rest).dropWhile Char.isDigit = mark :: rest := by
      rw [List.dropWhile_append_of_pos fun _ member => isDigit_of_mem_padded member,
        List.dropWhile_cons, mark_isDigit]
      rfl
    have found : (padded 4 year.natAbs).isEmpty = false := by
      simpa using padded_ne_nil 4 year.natAbs
    simp only [takeYear?.digits, run, left, found, ofDigits_padded]
    rfl
  unfold writeYear
  split
  · next plain =>
    simp only [Bool.and_eq_true, decide_eq_true_eq] at plain
    have fits : year.natAbs < 10 ^ 4 := by omega
    have number := takeNumber?_padded (by decide) fits (mark :: rest)
    obtain ⟨c, more, shape, digit⟩ := padded_eq_cons 4 year.natAbs
    have minus : c ≠ '-' := by rintro rfl; contradiction
    have plus : c ≠ '+' := by rintro rfl; contradiction
    unfold takeYear?
    rw [trimStart_padded]
    split
    · next same => simp [shape, minus] at same
    · next same => simp [shape, plus] at same
    · simp only [number, Option.map_some]
      have same : (year.natAbs : Int) = year := by omega
      rw [same]
  · split
    · next below =>
      rw [List.cons_append, takeYear?, trimStart_cons_of_isBlank (by decide)]
      simp only [signed, Option.map_some]
      have same : -(year.natAbs : Int) = year := by omega
      rw [same]
    · next notBelow =>
      rw [List.cons_append, takeYear?, trimStart_cons_of_isBlank (by decide)]
      simp only [signed, Option.map_some]
      have same : (year.natAbs : Int) = year := by omega
      rw [same]

theorem takeNanos?_padded (fits : n < 10 ^ 9) {mark : Char} (mark_isDigit : mark.isDigit = false)
    (rest : List Char) :
    takeNanos? ('.' :: (padded 9 n ++ mark :: rest)) = some (n, mark :: rest) := by
  have length := length_padded (by decide : 0 < 9) fits
  have front : (padded 9 n ++ mark :: rest).take 9 = padded 9 n := List.take_left' length
  have back : (padded 9 n ++ mark :: rest).drop 9 = mark :: rest := List.drop_left' length
  have found : (padded 9 n).isEmpty = false := by
    simpa using padded_ne_nil 9 n
  simp only [takeNanos?, front, takeWhile_padded, found, length, back, Nat.sub_self,
    List.replicate_zero, List.append_nil, ofDigits_padded, List.dropWhile_cons, mark_isDigit]
  rfl

theorem atOffset?_zero (t : Instant) :
    atOffset? t.date t.second t.nanosecond 0 = some t := by
  have inDay := t.second.isLt
  have nonneg : ¬((t.second.val : Int) - 0 < 0) := by omega
  have below : (t.second.val : Int) - 0 < 86400 := by omega
  have same : (((t.second.val : Int) - 0) % 86400).toNat = t.second.val := by omega
  have kept : (t.second.val < 86400 ∧ t.nanosecond.val < 2000000000) ∧
      (t.nanosecond.val < 1000000000 ∨ t.second.val % 60 = 59) :=
    ⟨⟨inDay, t.nanosecond.isLt⟩, t.leap⟩
  simp only [atOffset?, inDay, nonneg, below, if_false, if_true, same]
  simp [kept]

/-- A leap second is shown as the sixtieth of its minute, no other second is. -/
theorem shown_second (t : Instant) {extra : Nat}
    (counted : extra = if t.nanosecond.val < 1000000000 then 0 else 1) :
    t.second.val % 60 + extra ≤ 60 ∧ (t.second.val % 60 + extra) / 60 = extra ∧
      t.nanosecond.val % 1000000000 + 1000000000 * extra = t.nanosecond.val := by
  have nanos := t.nanosecond.isLt
  have leap := t.leap
  split at counted <;> omega

theorem takeNanos?_write (t : Instant) :
    takeNanos?
      ((if t.nanosecond.val % 1000000000 = 0 then []
        else '.' :: padded 9 (t.nanosecond.val % 1000000000)) ++ ['Z']) =
      some (t.nanosecond.val % 1000000000, ['Z']) := by
  split
  · next none => rw [none]; rfl
  · exact takeNanos?_padded (by omega) (by decide) []

@[simp]
theorem read?_write (t : Instant) : read? t.write = some t := by
  obtain ⟨⟨low, high⟩, month, day⟩ := Date.bounds t.date
  have inDay := t.second.isLt
  obtain ⟨extra, counted⟩ :
      ∃ extra, extra = if t.nanosecond.val < 1000000000 then 0 else 1 := ⟨_, rfl⟩
  obtain ⟨sixtieth, leap, nano⟩ := t.shown_second counted
  have hour : t.second.val / 3600 < 10 ^ 2 := by omega
  have minute : t.second.val / 60 % 60 < 10 ^ 2 := by omega
  have second : t.second.val % 60 + extra < 10 ^ 2 := by omega
  have together : 3600 * (t.second.val / 3600) + 60 * (t.second.val / 60 % 60) +
      (t.second.val % 60 + extra - extra) = t.second.val := by omega
  have offset : takeOffset? (trimStart ['Z']) = some (0, []) := rfl
  have inRange : t.second.val / 3600 < 24 ∧ t.second.val / 60 % 60 < 60 ∧
      t.second.val % 60 + extra ≤ 60 ∧ (trimStart []).isEmpty = true :=
    ⟨by omega, by omega, sixtieth, rfl⟩
  have two : 0 < 2 := by decide
  have dash : isBlank '-' = false := by decide
  have colon : isBlank ':' = false := by decide
  rw [read?, write, String.toList_ofList]
  simp only [List.append_assoc, List.cons_append, ← counted]
  -- Each reader takes its part of the text and hands on the rest.
  refine Option.bind_eq_some_iff.mpr ⟨_, takeYear?_writeYear low high (by decide) _, ?_⟩
  refine Option.bind_eq_some_iff.mpr ⟨_, takeMark?_cons dash _, ?_⟩
  refine Option.bind_eq_some_iff.mpr ⟨_, takeNumber?_padded two month _, ?_⟩
  refine Option.bind_eq_some_iff.mpr ⟨_, takeMark?_cons dash _, ?_⟩
  refine Option.bind_eq_some_iff.mpr ⟨_, takeNumber?_padded two day _, ?_⟩
  refine Option.bind_eq_some_iff.mpr ⟨_, Date.of?_self t.date, ?_⟩
  refine Option.bind_eq_some_iff.mpr ⟨_, rfl, ?_⟩
  refine Option.bind_eq_some_iff.mpr ⟨_, takeNumber?_padded two hour _, ?_⟩
  refine Option.bind_eq_some_iff.mpr ⟨_, takeMark?_cons colon _, ?_⟩
  refine Option.bind_eq_some_iff.mpr ⟨_, takeNumber?_padded two minute _, ?_⟩
  refine Option.bind_eq_some_iff.mpr ⟨_, takeMark?_cons colon _, ?_⟩
  refine Option.bind_eq_some_iff.mpr ⟨_, takeNumber?_padded two second _, ?_⟩
  refine Option.bind_eq_some_iff.mpr ⟨_, t.takeNanos?_write, ?_⟩
  refine Option.bind_eq_some_iff.mpr ⟨_, offset, ?_⟩
  rw [if_pos inRange, leap, together, nano, atOffset?_zero]

end Instant

end Evolution
