import Evolution.Proofs.Breeding.Children
import Mathlib.Logic.Relation

/-! Descent. The parents that a child names are the answers that its program was made of, whatever
the operator and the random choices; and it comes one generation after the furthest of them. So along
lines of descent the generations are counted up. -/

namespace Evolution

open Breeding

/-- The answer is in a generation that has one after it. -/
def Answer.Early (a : Answer) : Prop := a.progress.toNat + 1 < UInt64.size

instance (a : Answer) : Decidable a.Early :=
  inferInstanceAs (Decidable (a.progress.toNat + 1 < UInt64.size))

namespace Child

/-- The answer is the child with a name: it descends from the child's parents and is unmarked. -/
structure Becomes (c : Child) (a : Answer) : Prop where
  program : a.program = c.program
  ancestors : a.ancestors = c.parents.map (·.id)
  /-- One more than the largest number of a parent; zero without parents. -/
  progress : a.progress.toNat = (c.parents.map (·.progress.toNat)).max?.elim 0 (· + 1)
  language : a.language = (c.parents.head?.map (·.language)).getD Answer.defaultLanguage
  scores : a.scores = .empty
  tags : a.tags = .empty
  unsaved : a.externalId = none ∧ a.revision = none

theorem max?_progress (first : Answer) (rest : List Answer) :
    ((first :: rest).map (·.progress.toNat)).max? =
      some (rest.foldl (fun most a => max most a.progress) first.progress).toNat := by
  rw [List.map_cons, List.max?_cons']
  generalize first.progress = start
  induction rest generalizing start with
  | nil => rfl
  | cons a rest ih => rw [List.map_cons, List.foldl_cons, List.foldl_cons, ← UInt64.toNat_max, ih]

theorem toNat_progress? {parents : List Answer} {progress : UInt64}
    (h : progress? parents = some progress) :
    progress.toNat = (parents.map (·.progress.toNat)).max?.elim 0 (· + 1) := by
  cases parents with
  | nil =>
    obtain rfl := Option.some.inj h
    rfl
  | cons first rest =>
    rw [max?_progress]
    unfold progress? at h
    simp only at h
    split at h
    · next early =>
      obtain rfl := Option.some.inj h
      rw [UInt64.toNat_add]
      exact Nat.mod_eq_of_lt early
    · cases h

theorem isSome_progress?_iff {parents : List Answer} :
    (progress? parents).isSome = true ↔ ∀ a ∈ parents, a.Early := by
  cases parents with
  | nil => simp [progress?]
  | cons first rest =>
    obtain ⟨reached, most⟩ := List.max?_eq_some_iff.mp (max?_progress first rest)
    have early : (progress? (first :: rest)).isSome = true ↔
        (rest.foldl (fun most a => max most a.progress) first.progress).toNat + 1 < UInt64.size := by
      unfold progress?
      simp only
      split <;> simp_all
    refine early.trans ⟨fun last a member => ?_, fun all => ?_⟩
    · exact Nat.lt_of_le_of_lt (Nat.succ_le_succ (most _ (List.mem_map_of_mem member))) last
    · obtain ⟨a, member, same⟩ := List.mem_map.mp reached
      exact same ▸ all a member

theorem becomes_of_answer? {c : Child} {id : AnswerId} {born : Instant} {a : Answer}
    (h : c.answer? id born = some a) : c.Becomes a := by
  obtain ⟨progress, counted, made⟩ := Option.bind_eq_some_iff.mp h
  obtain rfl := Option.some.inj made
  exact ⟨rfl, rfl, toNat_progress? counted, rfl, rfl, rfl, rfl, rfl⟩

/-- The answers are the children, in order. -/
theorem becomes_of_answers? {supply later : Supply} {children : List Child} {created : List Answer}
    (h : answers? supply children = some (created, later)) : List.Forall₂ Becomes children created := by
  induction children generalizing supply later created with
  | nil =>
    obtain ⟨rfl, _⟩ := Prod.mk.inj (Option.some.inj h)
    exact .nil
  | cons c rest ih =>
    obtain ⟨a, named, h⟩ := Option.bind_eq_some_iff.mp h
    obtain ⟨⟨others, last⟩, made, h⟩ := Option.bind_eq_some_iff.mp h
    obtain ⟨rfl, _⟩ := Prod.mk.inj (Option.some.inj h)
    exact .cons (becomes_of_answer? named) (ih made)

/-- Children become answers unless a parent is in the last generation. -/
theorem isSome_answers?_iff (supply : Supply) {children : List Child} :
    (answers? supply children).isSome = true ↔ ∀ c ∈ children, ∀ a ∈ c.parents, a.Early := by
  induction children generalizing supply with
  | nil => simp [answers?]
  | cons c rest ih =>
    rw [List.forall_mem_cons, ← isSome_progress?_iff, ← ih supply.fresh.2, answers?]
    cases first : progress? c.parents with
    | none => simp [answer?, first]
    | some progress => cases others : answers? supply.fresh.2 rest <;> simp [answer?, first, others]

end Child

namespace Operator

/-- An operator can make this program as its child with this number out of these parents. The numbers
of children count from zero; `i` and `j` are the place of an answer in the crowd and the number of a
child among those of this answer. -/
inductive Makes (crowd : List Answer) (count : Option Nat) (overrides : BreedingOptions) :
    Operator → Nat → List Answer → Program → Prop
  | guess {types : Registry} {defaults : BreedingOptions} {k : Nat} {program : Program}
    (drawn : (randomProgram ((defaults.merge overrides).generation {}) types).Gives program) :
    Makes crowd count overrides (.randomGuess types defaults) k [] program
  | clone {k : Nat} {donor : Answer} (member : donor ∈ crowd) :
    Makes crowd count overrides .resampleAndClone k [donor] donor.program
  | values {types : Registry} {defaults : BreedingOptions} {i j : Nat} {parent : Answer}
    {program : Program} (place : crowd[i]? = some parent) (turn : j < count.getD 1)
    (drawn : (parent.program.mapTexts
      (resampled types (defaults.merge overrides) (parent.size / 2))).Gives program) :
    Makes crowd count overrides (.resampleValues types defaults) (i * count.getD 1 + j) [parent] program
  | without {i j point : Nat} {parent : Answer} {program : Program}
    (place : crowd[i]? = some parent) (turn : j < count.getD 1)
    (deleted : parent.program.deletePoint point = .ok program) :
    Makes crowd count overrides .pointDelete (i * count.getD 1 + j) [parent] program
  | mutant {types : Registry} {defaults : BreedingOptions} {i j point : Nat} {parent : Answer}
    {fresh : Point} {program : Program} (place : crowd[i]? = some parent) (turn : j < count.getD 1)
    (drawn : let o := (defaults.merge overrides).generation {}
      (randomPoint o types (max o.size 1)).Gives fresh)
    (replaced : parent.program.replacePoint point fresh = .ok program) :
    Makes crowd count overrides (.pointMutation types defaults) (i * count.getD 1 + j) [parent] program
  /-- The second parent is the one after the first; the first of the crowd comes after the last. -/
  | crossed {defaults : BreedingOptions} {i k : Nat} {mom dad : Answer} {program : Program}
    (place : crowd[i]? = some mom) (next : crowd[(i + 1) % crowd.length]? = some dad)
    (drawn : (crossBackbones (keepProbability defaults overrides) mom.program dad.program).Gives
      program) :
    Makes crowd count overrides (.uniformBackboneCrossover defaults) k [mom, dad] program
  | grafted {k receives donates : Nat} {mom dad : Answer} {graft : Point} {program : Program}
    (first : mom ∈ crowd) (second : dad ∈ crowd) (taken : dad.program.point donates = .ok graft)
    (replaced : mom.program.replacePoint receives graft = .ok program) :
    Makes crowd count overrides .pointCrossover k [mom, dad] program
  | blended {types : Registry} {k : Nat} {mom dad : Answer} {program : Program}
    (first : mom ∈ crowd) (second : dad ∈ crowd) (alike : mom.language = dad.language)
    (drawn : (Program.blend types mom.program dad.program).Gives program) :
    Makes crowd count overrides (.blendingCrossover types) k [mom, dad] program

variable {crowd : List Answer} {count : Option Nat} {overrides : BreedingOptions} {op : Operator}

theorem Makes.parents {k : Nat} {parents : List Answer} {program : Program}
    (h : op.Makes crowd count overrides k parents program) : ∀ a ∈ parents, a ∈ crowd := by
  cases h with
  | guess => exact List.forall_mem_nil _
  | clone member => exact List.forall_mem_singleton.mpr member
  | values place | without place | mutant place =>
    exact List.forall_mem_singleton.mpr (List.mem_of_getElem? place)
  | crossed place next =>
    simp [List.mem_of_getElem? place, List.mem_of_getElem? next]
  | grafted first second | blended first second => simp [first, second]

/-- The operator that makes children of nothing. -/
def isGuess : Operator → Bool
  | randomGuess .. => true
  | _ => false

theorem Makes.isGuess_eq_false {k : Nat} {parents : List Answer} {program : Program}
    (h : op.Makes crowd count overrides k parents program) {a : Answer} (parent : a ∈ parents) :
    op.isGuess = false := by
  cases h with
  | guess => cases parent
  | _ => rfl

/-- Every child of the list can have been made by the operator, with its number. -/
def AllMade (op : Operator) (crowd : List Answer) (count : Option Nat) (overrides : BreedingOptions)
    (children : List Child) : Prop :=
  ∀ k c, children[k]? = some c → op.Makes crowd count overrides k c.parents c.program

theorem AllMade.exists_answers {children : List Child}
    (made : op.AllMade crowd count overrides children)
    (early : op.isGuess = false → ∀ a ∈ crowd, a.Early) (supply : Supply) :
    ∃ created later, Child.answers? supply children = some (created, later) ∧
      List.Forall₂ Child.Becomes children created := by
  have parents : ∀ c ∈ children, ∀ a ∈ c.parents, a.Early := by
    intro c member a parent
    obtain ⟨k, there⟩ := List.mem_iff_getElem?.mp member
    have makes := made k c there
    exact early (makes.isGuess_eq_false parent) a (makes.parents a parent)
  obtain ⟨⟨created, later⟩, named⟩ :=
    Option.isSome_iff_exists.mp ((Child.isSome_answers?_iff supply).mpr parents)
  exact ⟨created, later, named, Child.becomes_of_answers? named⟩

theorem yields_pointOf (p : Program) : (Draw.pointOf p).Yields fun i => 0 < i ∧ i ≤ p.size := by
  apply Draw.Yields.afterAny
  intro i
  apply Draw.Yields.pure
  exact ⟨i.val.succ_pos, i.isLt⟩

/-- Children that an operator makes one like the other. -/
theorem yields_allMade_times {draw : Draw Child} (n : Nat)
    (h : draw.Yields fun c => ∀ k, op.Makes crowd count overrides k c.parents c.program) :
    (draw.times n).Yields (op.AllMade crowd count overrides) :=
  (h.times n).mono fun _ made k c there => made c (List.mem_of_getElem? there) k

/-- Children that an operator makes of each answer in turn. -/
theorem yields_allMade_forEach {draw : Answer → Draw Child}
    (h : ∀ parent i j, crowd[i]? = some parent → j < count.getD 1 → (draw parent).Yields fun c =>
      op.Makes crowd count overrides (i * count.getD 1 + j) c.parents c.program) :
    (Draw.forEach draw (count.getD 1) crowd).Yields (op.AllMade crowd count overrides) := by
  have each : ∀ parent ∈ crowd, (draw parent).Yields fun c => ∀ i j, crowd[i]? = some parent →
      j < count.getD 1 → op.Makes crowd count overrides (i * count.getD 1 + j) c.parents c.program :=
    fun parent _ words position c next run i j place turn =>
      h parent i j place turn words position c next run
  refine (Draw.Yields.forEach_replicate each _).mono fun children made k c there => ?_
  obtain ⟨parent, listed, makes⟩ := exists_getElem?_of_forall₂ made there
  have some : 0 < count.getD 1 := by
    by_contra none
    simp [Nat.eq_zero_of_not_pos none] at listed
  have number : k / count.getD 1 * count.getD 1 + k % count.getD 1 = k := Nat.div_add_mod' k _
  have turn := Nat.mod_lt k some
  rw [← number, getElem?_flatMap_replicate crowd turn] at listed
  exact number ▸ makes _ _ listed turn

section Children

variable (types : Registry) (defaults : BreedingOptions)

theorem allMade_nil : op.AllMade crowd count overrides [] := by simp [AllMade]

theorem yields_allMade_randomGuess :
    ((randomGuess types defaults).children crowd count overrides).Yields
      ((randomGuess types defaults).AllMade crowd count overrides) := by
  refine yields_allMade_times _ ((Draw.yields_gives _).bind fun program drawn => .pure fun k => ?_)
  exact .guess drawn

theorem yields_allMade_resampleAndClone :
    (resampleAndClone.children crowd count overrides).Yields
      (resampleAndClone.AllMade crowd count overrides) := by
  refine .dite (fun h => yields_allMade_times _ ?_) fun _ => .pure allMade_nil
  refine (Draw.yields_someone h).bind fun donor member => .pure fun k => ?_
  exact .clone member

theorem yields_allMade_resampleValues :
    ((resampleValues types defaults).children crowd count overrides).Yields
      ((resampleValues types defaults).AllMade crowd count overrides) := by
  refine yields_allMade_forEach fun parent i j place turn => ?_
  exact (Draw.yields_gives _).bind fun program drawn => .pure (.values place turn drawn)

theorem yields_allMade_uniformBackboneCrossover :
    ((uniformBackboneCrossover defaults).children crowd count overrides).Yields
      ((uniformBackboneCrossover defaults).AllMade crowd count overrides) := by
  refine .dite (fun h => yields_allMade_times _ (.afterAny fun i => ?_)) fun _ => .pure allMade_nil
  refine (Draw.yields_gives _).bind fun program drawn => .pure fun k => ?_
  exact .crossed (List.getElem?_eq_getElem i.isLt) (List.getElem?_eq_getElem (Nat.mod_lt _ h)) drawn

theorem yields_allMade_pointCrossover :
    (pointCrossover.children crowd count overrides).Yields
      (pointCrossover.AllMade crowd count overrides) := by
  refine .dite (fun h => yields_allMade_times _ ?_) fun _ => .pure allMade_nil
  refine (Draw.yields_someone h).bind fun mom first => ?_
  refine (Draw.yields_someone h).bind fun dad second => ?_
  refine (yields_pointOf mom.program).bind fun receives slot => ?_
  refine (yields_pointOf dad.program).bind fun donates source => .pure fun k => ?_
  obtain ⟨graft, taken⟩ := Program.exists_point source.1 source.2
  obtain ⟨program, replaced⟩ := Program.exists_replacePoint graft slot.1 slot.2
  simp only [taken, Answer.replacePoint, replaced, Except.toOption, Option.getD_some]
  exact .grafted first second taken replaced

theorem yields_allMade_pointDelete :
    (pointDelete.children crowd count overrides).Yields
      (pointDelete.AllMade crowd count overrides) := by
  refine yields_allMade_forEach fun parent i j place turn => ?_
  refine (yields_pointOf parent.program).bind fun point inside => .pure ?_
  obtain ⟨program, deleted⟩ := Program.exists_deletePoint inside.1 inside.2
  simp only [Answer.deletePoint, deleted, Except.toOption, Option.getD_some]
  exact .without place turn deleted

theorem yields_allMade_pointMutation :
    ((pointMutation types defaults).children crowd count overrides).Yields
      ((pointMutation types defaults).AllMade crowd count overrides) := by
  refine yields_allMade_forEach fun parent i j place turn => ?_
  refine (yields_pointOf parent.program).bind fun point inside => ?_
  refine (Draw.yields_gives _).bind fun fresh drawn => .pure ?_
  obtain ⟨program, replaced⟩ := Program.exists_replacePoint fresh inside.1 inside.2
  simp only [Answer.replacePoint, replaced, Except.toOption, Option.getD_some]
  exact .mutant place turn drawn replaced

/-- Both parents come out of one group of speakers, so they speak the same language. -/
theorem yields_allMade_blendingCrossover :
    ((blendingCrossover types).children crowd count overrides).Yields
      ((blendingCrossover types).AllMade crowd count overrides) := by
  refine (yields_blendGroups_pair types _ _).mono fun children made k c there => ?_
  obtain ⟨group, grouped, mom, first, dad, second, parents, drawn⟩ :=
    made c (List.mem_of_getElem? there)
  rw [groups_byLanguage] at grouped
  obtain ⟨language, _, rfl⟩ := List.mem_map.mp grouped
  obtain ⟨first, speaks⟩ := mem_speakers.mp first
  obtain ⟨second, speaks'⟩ := mem_speakers.mp second
  exact parents ▸ .blended first second (speaks.trans speaks'.symm) drawn

end Children

/-- Every operator names the parents that it makes its children of. -/
theorem yields_allMade (op : Operator) (crowd : List Answer) (count : Option Nat)
    (overrides : BreedingOptions) :
    (op.children crowd count overrides).Yields (op.AllMade crowd count overrides) := by
  cases op with
  | randomGuess types defaults => exact yields_allMade_randomGuess types defaults
  | resampleAndClone => exact yields_allMade_resampleAndClone
  | resampleValues types defaults => exact yields_allMade_resampleValues types defaults
  | uniformBackboneCrossover defaults => exact yields_allMade_uniformBackboneCrossover defaults
  | pointCrossover => exact yields_allMade_pointCrossover
  | pointDelete => exact yields_allMade_pointDelete
  | pointMutation types defaults => exact yields_allMade_pointMutation types defaults
  | blendingCrossover types => exact yields_allMade_blendingCrossover types

end Operator

/-- The answer later on, with other scores, tags and marks of a store. -/
def Answer.Remarked (a a' : Answer) : Prop :=
  a' = { a with scores := a'.scores, tags := a'.tags, externalId := a'.externalId,
                revision := a'.revision }

/-- One answer is a parent of another: of a child in a call that succeeds, whatever marks the child
got since. -/
inductive Answer.Begets (a b : Answer) : Prop
  | intro {op : Operator} {crowd : List Answer} {count : Option Nat} {overrides : BreedingOptions}
    {draw : Draw (List Child)} {words : Words} {position next k : Nat} {children : List Child}
    {supply later : Supply} {created : List Answer} {c : Child} {born : Answer}
    (accepted : op.breed crowd count overrides = .ok draw)
    (drawn : draw.runFrom words position = .ok (children, next))
    (named : Child.answers? supply children = some (created, later))
    (child : children[k]? = some c) (parent : a ∈ c.parents) (answer : created[k]? = some born)
    (since : born.Remarked b) : Begets a b

theorem Child.Becomes.progress_lt {c : Child} {a b : Answer} (h : c.Becomes b)
    (parent : a ∈ c.parents) : a.progress < b.progress := by
  have member : a.progress.toNat ∈ c.parents.map (·.progress.toNat) := List.mem_map_of_mem parent
  obtain ⟨most, largest⟩ := Option.isSome_iff_exists.mp (List.isSome_max?_of_mem member)
  have number := h.progress
  rw [largest, Option.elim_some] at number
  have bound := (List.max?_eq_some_iff.mp largest).2 _ member
  rw [UInt64.lt_iff_toNat_lt, number]
  exact Nat.lt_succ_of_le bound

theorem Answer.Begets.progress_lt {a b : Answer} (h : a.Begets b) : a.progress < b.progress := by
  obtain ⟨_, _, named, child, parent, answer, since⟩ := h
  obtain ⟨c', same, becomes⟩ := exists_getElem?_of_forall₂ (Child.becomes_of_answers? named) answer
  obtain rfl := Option.some.inj (child.symm.trans same)
  rw [since]
  exact becomes.progress_lt parent

/-- The truth about descent. -/
structure Lineage : Prop where
  /-- A call that is accepted and whose draw ends makes answers; each descends from the parents that
  its program was made of, by its operator and with its number. -/
  truthful : ∀ (op : Operator) (crowd : List Answer) (count : Option Nat) (overrides : BreedingOptions)
    (draw : Draw (List Child)) (words : Words) (position next : Nat) (children : List Child)
    (supply : Supply), (∀ a ∈ crowd, a.Early) → op.breed crowd count overrides = .ok draw →
    draw.runFrom words position = .ok (children, next) →
    ∃ created later, Child.answers? supply children = some (created, later) ∧
      created.length = children.length ∧
      ∀ k a, created[k]? = some a → ∃ parents,
        op.Makes crowd count overrides k parents a.program ∧ Child.Becomes ⟨a.program, parents⟩ a
  /-- Generations only go up from parents to children. -/
  rising : ∀ a b, Relation.TransGen Answer.Begets a b → a.progress < b.progress

theorem ancestors_truthful_and_progress_rising : Lineage := by
  constructor
  · intro op crowd count overrides draw words position next children supply early accepted drawn
    have made := Operator.yields_of_breed accepted (Operator.yields_allMade op crowd count overrides)
      words position children next drawn
    obtain ⟨created, later, named, becomes⟩ := made.exists_answers (fun _ => early) supply
    refine ⟨created, later, named, becomes.length_eq.symm, fun k a there => ?_⟩
    obtain ⟨c, child, becomes⟩ := exists_getElem?_of_forall₂ becomes there
    obtain ⟨program, parents⟩ := c
    obtain rfl : a.program = program := becomes.program
    exact ⟨parents, made k _ child, becomes⟩
  · intro a b line
    induction line with
    | single begets => exact begets.progress_lt
    | tail _ begets ih => exact UInt64.lt_trans ih begets.progress_lt

/-- A child of an answer and the one after it, which is the first again and in an earlier
generation. -/
theorem ancestors_truthful_and_progress_rising_of_crossover :
    let program : Program := .ofPoint (.block [.instruction "f"])
    let dad := Answer.new ⟨1⟩ .epoch (.ofPoint (.instruction "g"))
    let mom : Answer := { Answer.new ⟨2⟩ .epoch program with progress := 4, language := "push" }
    let child : Answer := { Answer.new ⟨7⟩ .epoch program with
      progress := 5, ancestors := [⟨2⟩, ⟨1⟩], language := "push" }
    (∃ parents, (Operator.uniformBackboneCrossover {}).Makes [dad, mom] (some 1) {} 0 parents program ∧
        Child.Becomes ⟨program, parents⟩ child) ∧
      dad.progress < child.progress := by
  intro program dad mom child
  let op := Operator.uniformBackboneCrossover {}
  let draw := op.children [dad, mom] (some 1) {}
  let words : Words := ⟨fun k => if k = 0 then 0x8000000000000000 else 0, 0⟩
  have accepted : op.breed [dad, mom] (some 1) {} = .ok draw := by
    refine Operator.breed_eq_ok_iff.mpr ⟨by decide +kernel, rfl⟩
  have drawn : draw.runFrom words 0 = .ok ([⟨program, [mom, dad]⟩], 2) := by decide +kernel
  have early : ∀ a ∈ [dad, mom], a.Early := by decide +kernel
  have named : Child.answers? ⟨7, .epoch⟩ [⟨program, [mom, dad]⟩] = some ([child], ⟨8, .epoch⟩) := by
    rfl
  obtain ⟨created, later, made, _, descent⟩ :=
    ancestors_truthful_and_progress_rising.truthful op _ _ _ draw words 0 2 _ ⟨7, .epoch⟩ early
      accepted drawn
  obtain ⟨rfl, rfl⟩ := Prod.mk.inj (Option.some.inj (named.symm.trans made))
  refine ⟨descent 0 child rfl, ancestors_truthful_and_progress_rising.rising dad child (.single ?_)⟩
  exact .intro accepted drawn named (k := 0) rfl (List.mem_of_getElem? (i := 1) rfl) rfl rfl

end Evolution
