import Evolution.Proofs.Answer.Record
import Evolution.Proofs.Blueprint.RoundTrip
import Evolution.Proofs.Store.Concurrency

/-! Loading what was saved. A document stays as it was written until an answer is written under its
name again, and it is read back unless a score in it is infinite or not a number: such a score is
saved as null, which cannot be read. -/

namespace Evolution.Store

variable {s : Store}

/-- The store after calls some of which may be refused. -/
def afterCalls (s : Store) : List SaveCall → Store
  | [] => s
  | c :: rest =>
    match s.save c.supply c.answers with
    | .error _ => s.afterCalls rest
    | .ok (later, _) => later.afterCalls rest

/-- What the loading of an answer gives that was saved under a name. -/
def loaded (a : Answer) (id : String) : Except StoreError AnswerRecord :=
  if a.record.Finite then .ok a.record else .error (.unreadable id)

theorem load_write_self (s : Store) (supply : Supply) (a : Answer) :
    (s.write supply a).store.load (nameOf a) = loaded a (nameOf a) := by
  simp only [load, Store.write, Table.get?_insert, if_true, AnswerRecord.ofJson?_toJson, loaded]
  split
  · next r read =>
    split at read
    · rw [if_pos ‹_›, Option.some.inj read]
    · contradiction
  · next unread =>
    split at unread
    · contradiction
    · rw [if_neg ‹_›]

theorem load_write_of_ne {a : Answer} {id : String} (apart : nameOf a ≠ id) (supply : Supply) :
    (s.write supply a).store.load id = s.load id := by
  simp only [load, Store.write, Table.get?_insert, if_neg apart.symm]

theorem load_writeAll_of_notMem {supply : Supply} {answers : List Answer} {id : String}
    (apart : ∀ a ∈ answers, nameOf a ≠ id) :
    (s.writeAll supply answers).1.load id = s.load id := by
  induction answers generalizing s supply with
  | nil => rfl
  | cons a rest ih =>
    obtain ⟨first, others⟩ := List.forall_mem_cons.mp apart
    rw [writeAll_cons, ih others, load_write_of_ne first]

/-- Each answer of a call is loaded by the name in its receipt, if the names are different. -/
theorem load_writeAll {supply : Supply} {answers : List Answer}
    (different : (answers.map nameOf).Nodup) :
    List.Forall₂ (fun a receipt => receipt.externalId = nameOf a ∧
        (s.writeAll supply answers).1.load (nameOf a) = loaded a (nameOf a))
      answers (s.writeAll supply answers).2.2.2 := by
  induction answers generalizing s supply with
  | nil => exact .nil
  | cons a rest ih =>
    obtain ⟨absent, different⟩ := List.nodup_cons.mp different
    have apart : ∀ b ∈ rest, nameOf b ≠ nameOf a :=
      fun b member same => absent (same ▸ List.mem_map_of_mem member)
    refine .cons ⟨rfl, ?_⟩ (ih different)
    rw [writeAll_cons, load_writeAll_of_notMem apart, load_write_self]

theorem load_afterCalls {calls : List SaveCall} {id : String}
    (apart : ∀ c ∈ calls, ∀ a ∈ c.answers, nameOf a ≠ id) :
    (s.afterCalls calls).load id = s.load id := by
  induction calls generalizing s with
  | nil => rfl
  | cons c rest ih =>
    obtain ⟨first, others⟩ := List.forall_mem_cons.mp apart
    rw [afterCalls]
    split
    · exact ih others
    · next later _ saved =>
      have written : (s.writeAll c.supply c.answers).1 = later :=
        congrArg Prod.fst (save_eq_ok_iff.mp saved).2
      rw [ih others, ← written, load_writeAll_of_notMem first]

/-- What was saved under different names is loaded by the names in the receipts, whatever else is
saved or refused afterwards under other names: the record of the answer if its scores are finite,
and an error if one of them is not. The blueprint of the record is read as the program again, if
that came from a text. -/
theorem load_saved {s' : Store} {supply later : Supply} {answers kept : List Answer}
    {receipts : List Receipt} (saved : s.save supply answers = .ok (s', later, kept, receipts))
    (different : (answers.map nameOf).Nodup) :
    List.Forall₂
      (fun a receipt =>
        (∀ calls : List SaveCall,
          (∀ c ∈ calls, ∀ b ∈ c.answers, nameOf b ≠ receipt.externalId) →
          let load := (s'.afterCalls calls).load receipt.externalId
          (a.record.Finite → load = .ok a.record) ∧
          (¬a.record.Finite → load = .error (.unreadable receipt.externalId))) ∧
        ∀ text, Program.parse text = .ok a.program →
          Program.parse a.record.blueprint = .ok a.program)
      answers receipts := by
  obtain ⟨-, written⟩ := save_eq_ok_iff.mp saved
  have each : List.Forall₂ (fun a receipt => receipt.externalId = nameOf a ∧
      (s.writeAll supply answers).1.load (nameOf a) = loaded a (nameOf a))
      answers (s.writeAll supply answers).2.2.2 := load_writeAll different
  rw [written] at each
  refine each.imp fun a receipt ⟨name, found⟩ => ⟨fun calls apart => ?_, fun text parsed => ?_⟩
  · have same : (s'.afterCalls calls).load receipt.externalId = loaded a receipt.externalId := by
      rw [load_afterCalls apart, name, found]
    simp only [same, loaded]
    exact ⟨fun finite => if_pos finite, fun infinite => if_neg infinite⟩
  · exact Program.parse_blueprint (Program.wellFormed_of_read parsed)

/-- A negative zero is loaded as it was saved, and an infinite score in the same call is not. -/
theorem load_saved_of_signed_zero :
    let text := "value «int»\n«int» 12"
    let p : Program := ⟨.literal ⟨"int", "12"⟩, []⟩
    let a := (Answer.new ⟨1⟩ .epoch p).withScore "x" (-0)
    let b := (Answer.new ⟨2⟩ .epoch .empty).withScore "x" (1 / 0)
    let s := (empty.writeAll ⟨7, .epoch⟩ [a, b]).1
    let calls : List SaveCall := [⟨⟨9, .epoch⟩, [.new ⟨3⟩ .epoch .empty]⟩]
    (empty.save ⟨7, .epoch⟩ [a, b]).toOption.map (·.1) = some s ∧
      ([a, b].map nameOf).Nodup ∧ Program.parse text = .ok p ∧
      (∀ c ∈ calls, ∀ d ∈ c.answers, nameOf d ∉ [a, b].map nameOf) ∧
      (s.afterCalls calls).load (nameOf a) = .ok a.record ∧
      Program.parse a.record.blueprint = .ok p ∧
      (s.afterCalls calls).load (nameOf b) = .error (.unreadable (nameOf b)) := by
  intro text p a b s calls
  have different : ([a, b].map nameOf).Nodup := by decide +kernel
  have parsed : Program.parse text = .ok p := by decide +kernel
  have apart : ∀ c ∈ calls, ∀ d ∈ c.answers, nameOf d ∉ [a, b].map nameOf := by decide +kernel
  have saved : empty.save ⟨7, .epoch⟩ [a, b] = .ok (empty.writeAll ⟨7, .epoch⟩ [a, b]) := rfl
  have each := load_saved saved different
  obtain ⟨⟨first, blueprint⟩, rest⟩ := List.forall₂_cons.mp each
  obtain ⟨⟨second, -⟩, -⟩ := List.forall₂_cons.mp rest
  have notFirst : ∀ c ∈ calls, ∀ d ∈ c.answers, nameOf d ≠ nameOf a :=
    fun c called d member same => apart c called d member (by simp [same])
  have notSecond : ∀ c ∈ calls, ∀ d ∈ c.answers, nameOf d ≠ nameOf b :=
    fun c called d member same => apart c called d member (by simp [same])
  exact ⟨rfl, different, parsed, apart, (first calls notFirst).1 (by decide +kernel),
    blueprint text parsed, (second calls notSecond).2 (by decide +kernel)⟩

/-- A score may be infinite, and the answer is saved, but never loaded. -/
theorem unreadable_of_infinite_score :
    ∃ a, fresh.setScore "x" (1 / 0) = .ok a ∧
      ∃ s supply kept receipt, empty.save ⟨7, .epoch⟩ [a] = .ok (s, supply, kept, [receipt]) ∧
        s.load receipt.externalId = .error (.unreadable receipt.externalId) := by
  refine ⟨_, rfl, _, _, _, _, rfl, ?_⟩
  decide +kernel

end Evolution.Store
