import Evolution.Proofs.Breeding.Descent

/-! Fair blending. Every answer of a crowd is a parent of as many children as any other: of the number
that is asked for. Parents speak one language; what is left over of a language with an odd number of
speakers is both parents of its children, and no other answer is. -/

namespace Evolution

open Breeding

namespace Breeding

variable {crowd : List Answer}

/-- A crowd in pairs, by language. -/
structure Pairing (crowd : List Answer) where
  /-- The speakers of a language in the order in which they are paired. -/
  order : String → List Answer
  perm : ∀ language, (order language).Perm (speakers crowd language)

namespace Pairing

/-- The pairs, the languages in the order in which they first occur. -/
def pairs (p : Pairing crowd) : List (Answer × Answer) :=
  (byLanguage crowd).names.flatMap fun language => inPairs (p.order language)

/-- The answer that is left over of a language. -/
def leftOver? (p : Pairing crowd) (language : String) : Option Answer := leftOver (p.order language)

theorem mem_order {p : Pairing crowd} {language : String} {a : Answer} :
    a ∈ p.order language ↔ a ∈ crowd ∧ a.language = language :=
  (p.perm language).mem_iff.trans mem_speakers

theorem nodup_order (p : Pairing crowd) (different : crowd.Nodup) (language : String) :
    (p.order language).Nodup :=
  (p.perm language).nodup_iff.mpr (different.filter _)

/-- The two of a pair are of one language. -/
theorem exists_language {p : Pairing crowd} {pair : Answer × Answer} (h : pair ∈ p.pairs) :
    ∃ language, pair ∈ inPairs (p.order language) ∧
      (pair.1 ∈ crowd ∧ pair.1.language = language) ∧ pair.2 ∈ crowd ∧ pair.2.language = language := by
  obtain ⟨language, _, here⟩ := List.mem_flatMap.mp h
  obtain ⟨first, second⟩ := mem_of_mem_inPairs here
  exact ⟨language, here, mem_order.mp first, mem_order.mp second⟩

/-- Each answer is in one pair. -/
theorem countP_pairs (p : Pairing crowd) (different : crowd.Nodup) {a : Answer} (member : a ∈ crowd) :
    p.pairs.countP (fun pair => a = pair.1 ∨ a = pair.2) = 1 := by
  have share : ∀ language, (inPairs (p.order language)).countP (fun pair => a = pair.1 ∨ a = pair.2) =
      (speakers crowd language).count a := fun language =>
    (countP_inPairs (p.nodup_order different language) a).trans ((p.perm language).count_eq a)
  have group : (byLanguage crowd).get? a.language = some (speakers crowd a.language) := by
    rw [get?_byLanguage, if_pos (List.mem_map_of_mem member)]
  -- Only the group of its language holds the answer.
  have only : ∀ entry ∈ (byLanguage crowd).entries, entry.1 ≠ a.language →
      (speakers crowd entry.1).count a = 0 := fun entry _ apart =>
    List.count_eq_zero.mpr fun here => apart (mem_speakers.mp here).2.symm
  rw [pairs, List.countP_flatMap, Table.names, List.map_map]
  simp only [Function.comp_def, share]
  rw [Table.sum_map_of_get? group _ only]
  exact List.count_eq_one_of_mem (different.filter _) (mem_speakers.mpr ⟨member, rfl⟩)

/-- There is something left over exactly of the languages with an odd number of speakers. -/
theorem isSome_leftOver?_iff (p : Pairing crowd) (language : String) :
    (p.leftOver? language).isSome = true ↔ Odd (crowd.countP (·.language = language)) := by
  rw [leftOver?, isSome_leftOver_iff, (p.perm language).length_eq, List.countP_eq_length_filter]
  rfl

end Pairing

/-- A blend pairs the crowd and makes a number of children for each pair in turn. -/
theorem exists_pairing (types : Registry) (crowd : List Answer) (count : Nat) :
    (blendGroups types count ((byLanguage crowd).entries.map (·.2))).Yields fun children =>
      ∃ p : Pairing crowd,
        List.Forall₂ (Blends types) (p.pairs.flatMap (List.replicate count)) children := by
  refine (yields_blendGroups_order types count _).mono ?_
  rintro children ⟨orders, perms, made⟩
  rw [groups_byLanguage, List.forall₂_map_right_iff] at perms
  obtain ⟨order, rfl, perm⟩ := exists_eq_map_of_forall₂ perms (byLanguage crowd).distinct []
  let spoken := (byLanguage crowd).names
  refine ⟨⟨fun language => if language ∈ spoken then order language else [], fun language => ?_⟩, ?_⟩
  · split
    · next known => exact perm language known
    · next unknown => rw [speakers_eq_nil fun spoken => unknown (mem_names_byLanguage.mpr spoken)]
  · have same : (spoken.map order).flatMap inPairs =
        spoken.flatMap fun language => inPairs (if language ∈ spoken then order language else []) := by
      rw [List.flatMap_map]
      exact List.flatMap_congr fun language known => by rw [if_pos known]
    rw [same] at made
    exact made

end Breeding

/-- Every answer of a crowd has the same part in the blends of it. What is left over of a language is
at most one answer. -/
structure FairlyBlended (crowd : List Answer) (count : Nat) (created : List Answer)
    (leftOver? : String → Option Answer) : Prop where
  /-- Every answer is a parent of as many children; a child with the same parent twice counts once. -/
  share : ∀ a ∈ crowd, created.countP (fun child => a.id ∈ child.ancestors) = count
  /-- Both parents of a child speak its language, and they are one answer exactly if that is the one
  left over. -/
  parents : ∀ child ∈ created, ∃ mom ∈ crowd, ∃ dad ∈ crowd, child.ancestors = [mom.id, dad.id] ∧
    mom.language = child.language ∧ dad.language = child.language ∧
    (mom = dad ↔ leftOver? child.language = some mom)
  /-- An answer is left over of a language if an odd number speak it. -/
  odd : ∀ language, (leftOver? language).isSome = true ↔ Odd (crowd.countP (·.language = language))
  speaks : ∀ language, ∀ a ∈ leftOver? language, a ∈ crowd ∧ a.language = language

theorem Breeding.Pairing.fairlyBlended {types : Registry} {crowd : List Answer} (p : Pairing crowd)
    (different : (crowd.map (·.id)).Nodup) {count : Nat} {children : List Child}
    {created : List Answer}
    (made : List.Forall₂ (Blends types) (p.pairs.flatMap (List.replicate count)) children)
    (becomes : List.Forall₂ Child.Becomes children created) :
    FairlyBlended crowd count created p.leftOver? := by
  have apart : crowd.Nodup := .of_map _ different
  refine ⟨fun a member => ?_, fun child born => ?_, p.isSome_leftOver?_iff, fun language a left => ?_⟩
  · have ancestors : ∀ c b, Child.Becomes c b → decide (a.id ∈ c.parents.map (·.id)) =
        decide (a.id ∈ b.ancestors) := fun c b h => by rw [h.ancestors]
    have blends : ∀ pair c, Blends types pair c → decide (a.id = pair.1.id ∨ a.id = pair.2.id) =
        decide (a.id ∈ c.parents.map (·.id)) := fun pair c h => by simp [h.1]
    have named : ∀ b ∈ crowd, a.id = b.id ↔ a = b := fun b here =>
      ⟨List.inj_on_of_nodup_map different member here, congrArg _⟩
    have one : p.pairs.countP (fun pair => a.id = pair.1.id ∨ a.id = pair.2.id) = 1 := by
      rw [← p.countP_pairs apart member]
      refine List.countP_congr fun pair here => ?_
      obtain ⟨_, _, ⟨mom, _⟩, dad, _⟩ := Pairing.exists_language here
      simp only [named _ mom, named _ dad]
    rw [← countP_eq_of_forall₂ becomes ancestors, ← countP_eq_of_forall₂ made blends,
      countP_flatMap_replicate, one, Nat.mul_one]
  · obtain ⟨k, there⟩ := List.mem_iff_getElem?.mp born
    obtain ⟨c, found, becomes⟩ := exists_getElem?_of_forall₂ becomes there
    obtain ⟨pair, paired, parents, _⟩ := exists_getElem?_of_forall₂ made found
    obtain ⟨pair, here, turn⟩ := List.mem_flatMap.mp (List.mem_of_getElem? paired)
    obtain rfl := List.eq_of_mem_replicate turn
    obtain ⟨language, here, ⟨mom, speaks⟩, dad, speaks'⟩ := Pairing.exists_language here
    have spoken : child.language = language := by
      rw [becomes.language, parents]
      exact speaks
    refine ⟨_, mom, _, dad, ?_, speaks.trans spoken.symm, speaks'.trans spoken.symm, ?_⟩
    · rw [becomes.ancestors, parents]
      rfl
    · rw [spoken]
      exact eq_iff_leftOver (p.nodup_order apart language) here
  · exact Pairing.mem_order.mp (mem_of_leftOver left)

/-- A blend of a crowd is fair, whatever the languages, the count and the words. -/
theorem fairlyBlended_of_breed {types : Registry} {crowd : List Answer} {count : Option Nat}
    {overrides : BreedingOptions} {draw : Draw (List Child)} {words : Words} {position next : Nat}
    {children : List Child} {supply later : Supply} {created : List Answer}
    (different : (crowd.map (·.id)).Nodup)
    (accepted : (Operator.blendingCrossover types).breed crowd count overrides = .ok draw)
    (drawn : draw.runFrom words position = .ok (children, next))
    (named : Child.answers? supply children = some (created, later)) :
    ∃ leftOver?, FairlyBlended crowd (count.getD 1) created leftOver? := by
  have paired := Operator.yields_of_breed accepted (exists_pairing types crowd (count.getD 1))
  obtain ⟨p, made⟩ := paired words position children next drawn
  exact ⟨p.leftOver?, p.fairlyBlended different made (Child.becomes_of_answers? named)⟩

/-- Three answers of one language and one of another, with two children for each pair. -/
theorem fairlyBlended_of_breed_two_languages :
    let answer := fun n language =>
      { Answer.new ⟨n⟩ .epoch (.ofPoint (.reference "x")) with language : Answer }
    let crowd := [answer 1 "nudge", answer 2 "push", answer 3 "nudge", answer 4 "nudge"]
    ∃ created : List Answer, created.map (·.ancestors.map (·.bits)) =
        [[3, 4], [3, 4], [1, 1], [1, 1], [2, 2], [2, 2]] ∧
      ∃ leftOver?, FairlyBlended crowd 2 created leftOver? := by
  intro answer crowd
  let child := fun n m language =>
    (⟨.ofPoint (.reference "x"), [answer n language, answer m language]⟩ : Child)
  let children := [child 3 4 "nudge", child 3 4 "nudge", child 1 1 "nudge", child 1 1 "nudge",
    child 2 2 "push", child 2 2 "push"]
  let op := Operator.blendingCrossover .builtin
  have accepted : op.breed crowd (some 2) {} = .ok (op.children crowd (some 2) {}) := rfl
  have drawn : (op.children crowd (some 2) {}).runFrom ⟨fun _ => 0, 0⟩ 0 = .ok (children, 8) := by
    decide +kernel
  have different : (crowd.map (·.id)).Nodup := by decide
  have early : ∀ c ∈ children, ∀ a ∈ c.parents, a.Early := by decide +kernel
  obtain ⟨⟨created, later⟩, named⟩ :=
    Option.isSome_iff_exists.mp ((Child.isSome_answers?_iff ⟨9, .epoch⟩).mpr early)
  refine ⟨created, ?_, fairlyBlended_of_breed different accepted drawn named⟩
  have ancestors : (Child.answers? ⟨9, .epoch⟩ children).map (·.1.map (·.ancestors.map (·.bits))) =
      some [[3, 4], [3, 4], [1, 1], [1, 1], [2, 2], [2, 2]] := by decide +kernel
  rw [named] at ancestors
  exact Option.some.inj ancestors

end Evolution
