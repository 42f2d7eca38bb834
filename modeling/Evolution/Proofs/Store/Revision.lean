import Evolution.Proofs.Table
import Evolution.Proofs.Checks
import Evolution.Store
import Mathlib.Data.List.Nodup

/-! Revisions. A revision begins with the number of times that its document was written, and every
writing adds one; so a document never has the same revision twice. An update that passes the check
carries the revision of its document, and it still overwrites that revision when its turn comes
exactly if no earlier answer of the call is filed under the same name. -/

namespace Evolution.Store

variable {s t : Store} {id : String}

def revisionOf (generation : Nat) (stamp : AnswerId) : String :=
  toString generation ++ "-" ++ stamp.write

/-- What stands before the dash of a revision is the generation. -/
theorem ofDigitChars_revisionOf (generation : Nat) (stamp : AnswerId) :
    Nat.ofDigitChars 10 ((revisionOf generation stamp).toList.takeWhile (· ≠ '-')) 0 =
      generation := by
  have digits : ∀ c ∈ (toString generation).toList, decide (c ≠ '-') = true := by
    intro c member
    have digit : c.isDigit = true :=
      Nat.isDigit_of_mem_toDigits (by decide) (by decide) (Nat.toList_repr ▸ member)
    refine decide_eq_true fun dash => ?_
    rw [dash] at digit
    contradiction
  have before : (revisionOf generation stamp).toList.takeWhile (· ≠ '-') =
      Nat.toDigits 10 generation := by
    simp only [revisionOf, String.toList_append, List.append_assoc]
    rw [List.takeWhile_append_of_pos digits]
    simp [Nat.toString_eq_repr]
  rw [before, Nat.ofDigitChars_ten_toDigits]

/-- The number of times that a document was written. -/
def written (s : Store) (id : String) : Nat := ((s.documents.get? id).map (·.generation)).getD 0

/-- Every document has a revision that begins with its generation. -/
def Stamped (s : Store) : Prop :=
  ∀ id d, s.documents.get? id = some d → ∃ stamp, d.revision = revisionOf d.generation stamp

theorem stamped_empty : empty.Stamped := by
  rintro id d ⟨⟩

/-- Two stores in which a document has the same revision have seen it written equally often. -/
theorem Stamped.written_eq (h : s.Stamped) (h' : t.Stamped) {revision : String}
    (here : s.revision? id = some revision) (there : t.revision? id = some revision) :
    s.written id = t.written id := by
  obtain ⟨d, filed, rfl⟩ := Option.map_eq_some_iff.mp here
  obtain ⟨d', filed', same⟩ := Option.map_eq_some_iff.mp there
  obtain ⟨stamp, revised⟩ := h id d filed
  obtain ⟨stamp', revised'⟩ := h' id d' filed'
  have texts : revisionOf d.generation stamp = revisionOf d'.generation stamp' := by
    rw [← revised, ← revised', same]
  have generations : d.generation = d'.generation := by
    rw [← ofDigitChars_revisionOf d.generation stamp, texts, ofDigitChars_revisionOf]
  simp [written, filed, filed', generations]

theorem Stamped.write (h : s.Stamped) (supply : Supply) (a : Answer) :
    (s.write supply a).store.Stamped := by
  intro id d filed
  simp only [Store.write, Table.get?_insert] at filed
  split at filed
  · obtain rfl := Option.some.inj filed
    exact ⟨supply.fresh.1, rfl⟩
  · exact h id d filed

theorem written_write (s : Store) (supply : Supply) (a : Answer) (id : String) :
    (s.write supply a).store.written id = s.written id + if nameOf a = id then 1 else 0 := by
  simp only [written, Store.write, Table.get?_insert]
  by_cases same : nameOf a = id
  · simp [same]
  · simp [same, Ne.symm same]

theorem writeAll_cons (s : Store) (supply : Supply) (a : Answer) (rest : List Answer) :
    (s.writeAll supply (a :: rest)).1 =
      ((s.write supply a).store.writeAll (s.write supply a).supply rest).1 := rfl

/-- What a call writes: every document once for each answer that is filed under its name. -/
theorem Stamped.writeAll (h : s.Stamped) (supply : Supply) (answers : List Answer) :
    (s.writeAll supply answers).1.Stamped ∧
      ∀ id, (s.writeAll supply answers).1.written id =
        s.written id + (answers.map nameOf).count id := by
  induction answers generalizing s supply with
  | nil => exact ⟨h, fun _ => rfl⟩
  | cons a rest ih =>
    obtain ⟨stamped, counts⟩ := ih (h.write supply a) (s.write supply a).supply
    refine ⟨stamped, fun id => ?_⟩
    rw [writeAll_cons, counts, written_write, List.map_cons, List.count_cons]
    simp only [beq_iff_eq]
    omega

/-- The answer is new to the store, or it carries the revision that its document has. -/
def Current (s : Store) (a : Answer) : Prop :=
  ∀ id ∈ a.externalId, ∃ r, a.revision = some r ∧ s.revision? id = some r

theorem check_eq_ok_iff {a : Answer} : s.check a = .ok () ↔ s.Current a := by
  unfold check Current revision?
  cases a.externalId with
  | none => simp
  | some id =>
    cases filed : s.documents.get? id with
    | none => simp [filed]
    | some d =>
      by_cases same : a.revision = some d.revision <;> simp [filed, same]

theorem forM_check_eq_ok_iff {answers : List Answer} :
    answers.forM s.check = .ok () ↔ ∀ a ∈ answers, s.Current a :=
  forM_eq_ok_iff.trans (forall₂_congr fun _ _ => check_eq_ok_iff)

theorem save_eq_ok_iff {supply : Supply} {answers : List Answer}
    {result : Store × Supply × List Answer × List Receipt} :
    s.save supply answers = .ok result ↔
      (∀ a ∈ answers, s.Current a) ∧ s.writeAll supply answers = result := by
  rw [← forM_check_eq_ok_iff, save]
  cases answers.forM s.check <;> simp

/-- The check depends on the document under the answer's name alone. -/
theorem check_write {a b : Answer} (apart : b.externalId = none ∨ nameOf b ≠ nameOf a)
    (supply : Supply) : (s.write supply a).store.check b = s.check b := by
  unfold check
  cases filed : b.externalId with
  | none => rfl
  | some id =>
    have different : id ≠ nameOf a := by simpa [filed, nameOf] using apart
    simp only [Store.write, Table.get?_insert, different, if_false]

theorem forM_check_write {a : Answer} {rest : List Answer}
    (apart : ∀ b ∈ rest, b.externalId = none ∨ nameOf b ≠ nameOf a) (supply : Supply) :
    rest.forM (s.write supply a).store.check = rest.forM s.check := by
  induction rest with
  | nil => rfl
  | cons b rest ih =>
    rw [List.forall_mem_cons] at apart
    rw [List.forM, List.forM, check_write apart.1, ih apart.2]

end Evolution.Store
