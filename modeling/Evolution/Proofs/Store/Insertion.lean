import Evolution.Proofs.Store.Concurrency

/-! Insertions. A receipt calls a document inserted when the answer carried no name of the store; the
document is filed under the answer's own identifier all the same. So the receipts tell which documents
are new, and nothing is overwritten by an answer without a name, exactly if no such answer has an
identifier under which a document is filed already, in the store or by an earlier answer of the call:
a clone of one that was saved does. -/

namespace Evolution.Store

variable {s : Store} {supply : Supply} {answers : List Answer}

/-- The answers without a name of the store are filed under names that are free when their turn
comes. -/
def Unfiled (s : Store) (answers : List Answer) : Prop :=
  (∀ a ∈ answers, a.externalId = none → s.revision? (nameOf a) = none) ∧
    answers.Pairwise fun a b => b.externalId = none → nameOf b ≠ nameOf a

instance (s : Store) (answers : List Answer) : Decidable (s.Unfiled answers) :=
  @instDecidableAnd _ _ inferInstance (inferInstanceAs (Decidable (answers.Pairwise _)))

theorem revision?_write_eq_none_iff {a : Answer} {id : String} :
    (s.write supply a).store.revision? id = none ↔ id ≠ nameOf a ∧ s.revision? id = none := by
  simp only [revision?, Store.write, Table.get?_insert]
  by_cases same : id = nameOf a <;> simp [same]

/-- Answers without a name find their documents free exactly if they are unfiled. -/
theorem forall_held_eq_none_iff_unfiled :
    (∀ w ∈ s.writings supply answers, w.answer.externalId = none → w.held = none) ↔
      s.Unfiled answers := by
  induction answers generalizing s supply with
  | nil => simp [Store.writings, Unfiled]
  | cons a rest ih =>
    rw [Store.writings, List.forall_mem_cons, ih, Unfiled, Unfiled, List.forall_mem_cons,
      List.pairwise_cons]
    simp only [revision?_write_eq_none_iff]
    constructor
    · rintro ⟨first, others, pairs⟩
      exact ⟨⟨first, fun b member new => (others b member new).2⟩,
        fun b member new => (others b member new).1, pairs⟩
    · rintro ⟨⟨first, others⟩, apart, pairs⟩
      exact ⟨first, fun b member new => ⟨apart b member new, others b member new⟩, pairs⟩

/-- A document stays until its update comes, for none is ever removed. -/
theorem held_ne_none_of_current (current : ∀ a ∈ answers, s.Current a) :
    ∀ w ∈ s.writings supply answers, w.answer.externalId ≠ none → w.held ≠ none := by
  have there : ∀ a ∈ answers, a.externalId ≠ none → s.revision? (nameOf a) ≠ none := by
    intro a member update
    obtain ⟨id, filed⟩ := Option.ne_none_iff_exists'.mp update
    obtain ⟨r, -, held⟩ := current a member id filed
    simp [nameOf, filed, held]
  clear current
  induction answers generalizing s supply with
  | nil => simp [Store.writings]
  | cons a rest ih =>
    obtain ⟨first, others⟩ := List.forall_mem_cons.mp there
    rw [Store.writings, List.forall_mem_cons]
    refine ⟨first, ih fun b member update => ?_⟩
    rw [ne_eq, revision?_write_eq_none_iff]
    exact fun free => others b member update free.2

theorem forall₂_inserted (s : Store) (supply : Supply) (answers : List Answer) :
    List.Forall₂ (fun w receipt => receipt.inserted = w.answer.externalId.isNone)
      (s.writings supply answers) (s.writeAll supply answers).2.2.2 := by
  induction answers generalizing s supply with
  | nil => exact .nil
  | cons a rest ih => exact .cons rfl (ih _ _)

/-- The store grows by the documents that were not there. -/
theorem size_writeAll (s : Store) (supply : Supply) (answers : List Answer) :
    (s.writeAll supply answers).1.size =
      s.size + (s.writings supply answers).countP (·.held.isNone) := by
  induction answers generalizing s supply with
  | nil => rfl
  | cons a rest ih =>
    have first : (s.write supply a).store.size =
        s.size + if (s.revision? (nameOf a)).isNone then 1 else 0 := by
      rw [revision?, Option.isNone_map]
      exact Table.size_insert _ _ _
    rw [writeAll_cons, ih, first, Store.writings, List.countP_cons, Nat.add_right_comm,
      Nat.add_assoc]

theorem forall₂_iff_forall_mem {α β : Type} {R S : α → β → Prop} {P : α → Prop} {l : List α}
    {m : List β} (related : List.Forall₂ R l m) (same : ∀ a b, R a b → (S a b ↔ P a)) :
    List.Forall₂ S l m ↔ ∀ a ∈ l, P a := by
  induction related with
  | nil => simp
  | cons first _ ih => rw [List.forall₂_cons, List.forall_mem_cons, same _ _ first, ih]

theorem countP_inserted {writings : List Writing} {receipts : List Receipt}
    (receipted : List.Forall₂ (fun w receipt => receipt.inserted = w.answer.externalId.isNone)
      writings receipts) :
    receipts.countP (·.inserted) = writings.countP (·.answer.externalId.isNone) := by
  induction receipted with
  | nil => rfl
  | cons first _ ih => rw [List.countP_cons, List.countP_cons, ih, first]

/-- The answers without a name are those whose documents are new and those that overwrite. -/
theorem countP_isNone {writings : List Writing}
    (updates : ∀ w ∈ writings, w.answer.externalId ≠ none → w.held ≠ none) :
    writings.countP (·.answer.externalId.isNone) =
      writings.countP (·.held.isNone) +
        writings.countP (fun w => w.answer.externalId.isNone && w.held.isSome) := by
  induction writings with
  | nil => rfl
  | cons w rest ih =>
    obtain ⟨first, others⟩ := List.forall_mem_cons.mp updates
    simp only [List.countP_cons, ih others]
    cases filed : w.answer.externalId with
    | none => cases w.held <;> simp <;> omega
    | some id =>
      obtain ⟨r, held⟩ := Option.ne_none_iff_exists'.mp (first (by simp [filed]))
      simp [held]

/-- What the receipts of a call say about the documents. Every new document is called inserted; each
answer that overwrites without a name is one by which the store grows less than the receipts say. So
the receipts are right, nothing is overwritten without a name, and the store grows by what they call
inserted, each exactly if the answers without a name are unfiled. -/
theorem inserted_iff_free {t : Store} {later : Supply} {kept : List Answer} {receipts : List Receipt}
    (saved : s.save supply answers = .ok (t, later, kept, receipts)) :
    let writings := s.writings supply answers
    let inserted := receipts.countP (·.inserted)
    List.Forall₂ (fun w receipt =>
        (receipt.inserted = true ↔ w.answer.externalId = none) ∧
        (w.held = none → receipt.inserted = true)) writings receipts ∧
    t.size + writings.countP (fun w => w.answer.externalId.isNone && w.held.isSome) =
      s.size + inserted ∧
    (List.Forall₂ (fun w receipt => receipt.inserted = true ↔ w.held = none) writings receipts ↔
      s.Unfiled answers) ∧
    ((∀ w ∈ writings, w.answer.externalId = none → w.held = none) ↔ s.Unfiled answers) ∧
    (t.size = s.size + inserted ↔ s.Unfiled answers) := by
  intro writings inserted
  obtain ⟨current, written⟩ := save_eq_ok_iff.mp saved
  have updates : ∀ w ∈ writings, w.answer.externalId ≠ none → w.held ≠ none :=
    held_ne_none_of_current current
  have unfiled : (∀ w ∈ writings, w.answer.externalId = none → w.held = none) ↔
      s.Unfiled answers := forall_held_eq_none_iff_unfiled
  have receipted : List.Forall₂
      (fun w receipt => receipt.inserted = w.answer.externalId.isNone) writings receipts := by
    have all := forall₂_inserted s supply answers
    rwa [written] at all
  have grown : t.size = s.size + writings.countP (·.held.isNone) := by
    have all := size_writeAll s supply answers
    rwa [written] at all
  have balance : t.size +
      writings.countP (fun w => w.answer.externalId.isNone && w.held.isSome) =
        s.size + inserted := by
    have counted : inserted = writings.countP (·.answer.externalId.isNone) :=
      countP_inserted receipted
    rw [grown, counted, countP_isNone updates, Nat.add_assoc]
  refine ⟨?_, balance, ?_, unfiled, ?_⟩
  · refine (forall₂_iff_forall_mem receipted
      (P := fun w => w.held = none → w.answer.externalId = none) fun w receipt said => ?_).mpr ?_
    · simp [said]
    · exact fun w member new => by_contra fun update => updates w member update new
  · rw [← unfiled, forall₂_iff_forall_mem receipted
      (P := fun w => w.answer.externalId = none ↔ w.held = none) fun w receipt said => by simp [said]]
    refine forall₂_congr fun w member => ⟨Iff.mp, fun free => ⟨free, fun new => ?_⟩⟩
    exact by_contra fun update => updates w member update new
  · have exact_growth : t.size = s.size + inserted ↔
        writings.countP (fun w => w.answer.externalId.isNone && w.held.isSome) = 0 := by omega
    rw [exact_growth, ← unfiled, List.countP_eq_zero]
    simp

/-- An update and a new answer in one call: one document is new, and the receipts say so. -/
theorem inserted_iff_free_of_update :
    let s := (empty.writeAll ⟨7, .epoch⟩ [fresh]).1
    let answers := [kept, .new ⟨2⟩ .epoch .empty]
    ∃ t later written receipts,
      s.save ⟨8, .epoch⟩ answers = .ok (t, later, written, receipts) ∧ s.Unfiled answers ∧
        receipts.map (·.inserted) = [false, true] ∧ t.size = s.size + 1 := by
  intro s answers
  have checked : answers.forM s.check = .ok () := by decide +kernel
  have saved : s.save ⟨8, .epoch⟩ answers = .ok (s.writeAll ⟨8, .epoch⟩ answers) :=
    save_eq_ok_iff.mpr ⟨forM_check_eq_ok_iff.mp checked, rfl⟩
  have unfiled : s.Unfiled answers := by decide +kernel
  exact ⟨_, _, _, _, saved, unfiled, rfl, (inserted_iff_free saved).2.2.2.2.mpr unfiled⟩

/-- A clone of an answer that was saved since overwrites the document of that answer, and its receipt
calls the document inserted, though the store has not grown. -/
theorem clone_inserted_over_document :
    let s := (empty.writeAll ⟨7, .epoch⟩ [fresh]).1
    (empty.save ⟨7, .epoch⟩ [fresh]).toOption.map (·.1) = some s ∧
      ∃ t later written receipt,
        s.save ⟨8, .epoch⟩ [fresh] = .ok (t, later, written, [receipt]) ∧
          fresh.externalId = none ∧ receipt.inserted = true ∧
          s.revision? receipt.externalId ≠ none ∧ t.size ≠ s.size + 1 := by
  refine ⟨rfl, _, _, _, _, rfl, rfl, rfl, ?_, ?_⟩
  · decide +kernel
  · decide +kernel

end Evolution.Store
