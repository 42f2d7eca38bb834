import Evolution.Breeding.Operator
import Evolution.Proofs.Draw.Outcomes
import Evolution.Proofs.Table
import Mathlib.Algebra.BigOperators.Group.Finset.Basic
import Mathlib.Algebra.Ring.Parity

/-! Groups and pairs. A crowd is divided by language without loss, and a group into pairs so that
each member is in one pair; what is left over of an odd number is in a pair with itself. The children
of a blend belong to the pairs in order. -/

namespace Evolution.Breeding

variable {crowd : List Answer}

/-- The answers of a crowd that speak a language, in order. -/
def speakers (crowd : List Answer) (language : String) : List Answer :=
  crowd.filter (·.language = language)

theorem mem_speakers {language : String} {a : Answer} :
    a ∈ speakers crowd language ↔ a ∈ crowd ∧ a.language = language := by
  simp [speakers]

theorem speakers_append_singleton (crowd : List Answer) (a : Answer) (language : String) :
    speakers (crowd ++ [a]) language =
      if language = a.language then speakers crowd language ++ [a] else speakers crowd language := by
  by_cases same : language = a.language <;> simp [speakers, same, Ne.symm]

theorem speakers_eq_nil {language : String} (absent : language ∉ crowd.map (·.language)) :
    speakers crowd language = [] := by
  refine List.filter_eq_nil_iff.mpr fun a member spoken => absent ?_
  exact of_decide_eq_true spoken ▸ List.mem_map_of_mem member

theorem get?_byLanguage (crowd : List Answer) (language : String) :
    (byLanguage crowd).get? language =
      if language ∈ crowd.map (·.language) then some (speakers crowd language) else none := by
  -- Along the crowd: the groups are those of the answers that were divided so far.
  suffices divided : ∀ (rest done : List Answer) (groups : Table (List Answer)),
      (∀ language, groups.get? language =
        if language ∈ done.map (·.language) then some (speakers done language) else none) →
      ∀ language, (rest.foldl (fun groups a =>
          groups.insert a.language ((groups.get? a.language).getD [] ++ [a])) groups).get? language =
        if language ∈ (done ++ rest).map (·.language) then some (speakers (done ++ rest) language)
        else none by
    exact divided crowd [] .empty (fun _ => rfl) language
  intro rest
  induction rest with
  | nil => simp
  | cons a rest ih =>
    intro done groups known language
    rw [List.foldl_cons, List.append_cons done a rest]
    refine ih (done ++ [a]) _ (fun language => ?_) language
    have group : (groups.get? a.language).getD [] = speakers done a.language := by
      rw [known]
      split
      · rfl
      · next absent => exact (speakers_eq_nil absent).symm
    rw [Table.get?_insert, group, known, speakers_append_singleton]
    by_cases same : language = a.language <;> simp [same]

theorem mem_names_byLanguage {language : String} :
    language ∈ (byLanguage crowd).names ↔ language ∈ crowd.map (·.language) := by
  rw [← Table.contains_iff, Table.contains_eq_isSome, get?_byLanguage]
  split <;> simp [*]

theorem groups_byLanguage (crowd : List Answer) :
    (byLanguage crowd).entries.map (·.2) = (byLanguage crowd).names.map (speakers crowd) := by
  rw [Table.names, List.map_map]
  refine List.map_congr_left fun entry filed => ?_
  have found := Table.get?_of_mem_entries filed
  rw [get?_byLanguage] at found
  split at found
  · exact (Option.some.inj found).symm
  · cases found

/-- The groups of a crowd hold its members and no one else. -/
theorem mem_of_mem_groups {group : List Answer}
    (h : group ∈ (byLanguage crowd).entries.map (·.2)) : ∀ a ∈ group, a ∈ crowd := by
  rw [groups_byLanguage] at h
  obtain ⟨language, _, rfl⟩ := List.mem_map.mp h
  exact fun a member => (mem_speakers.mp member).1

theorem pairCount_eq_sum {α : Type} (groups : List (List α)) :
    pairCount groups = (groups.map fun group => (group.length + 1) / 2).sum := by
  induction groups with
  | nil => rfl
  | cons group rest ih => rw [pairCount, List.map_cons, List.sum_cons, ih]

/-- Every group counts half its size, rounded up. -/
theorem pairCount_byLanguage (crowd : List Answer) :
    pairCount ((byLanguage crowd).entries.map (·.2)) =
      ∑ language ∈ (crowd.map (·.language)).toFinset, (crowd.countP (·.language = language) + 1) / 2 := by
  have languages : (crowd.map (·.language)).toFinset = (byLanguage crowd).names.toFinset := by
    ext language
    rw [List.mem_toFinset, List.mem_toFinset, mem_names_byLanguage]
  have distinct : (byLanguage crowd).names.Nodup := (byLanguage crowd).distinct
  rw [pairCount_eq_sum, groups_byLanguage, languages, List.sum_toFinset _ distinct, List.map_map]
  refine congrArg List.sum (List.map_congr_left fun language _ => ?_)
  simp only [Function.comp_apply, speakers, List.countP_eq_length_filter]

section pairs

variable {α : Type}

theorem mem_of_mem_inPairs {xs : List α} {pair : α × α} (h : pair ∈ inPairs xs) :
    pair.1 ∈ xs ∧ pair.2 ∈ xs := by
  induction xs using inPairs.induct with
  | case1 => simp [inPairs] at h
  | case2 a =>
    obtain rfl := List.mem_singleton.mp h
    simp
  | case3 a b rest ih =>
    rw [inPairs, List.mem_cons] at h
    rcases h with rfl | h
    · simp
    · have := ih h
      simp [this]

theorem length_inPairs (xs : List α) : (inPairs xs).length = (xs.length + 1) / 2 := by
  induction xs using inPairs.induct with
  | case1 => simp [inPairs]
  | case2 a => simp [inPairs]
  | case3 a b rest ih =>
    simp only [inPairs, List.length_cons, ih]
    omega

theorem length_flatMap_inPairs (groups : List (List α)) :
    (groups.flatMap inPairs).length = pairCount groups := by
  induction groups with
  | nil => rfl
  | cons group rest ih =>
    rw [List.flatMap_cons, List.length_append, length_inPairs, ih, pairCount]

/-- The order within the groups makes no difference to the number of pairs. -/
theorem pairCount_of_perm {orders groups : List (List α)}
    (perms : List.Forall₂ List.Perm orders groups) : pairCount orders = pairCount groups := by
  induction perms with
  | nil => rfl
  | cons perm _ ih => rw [pairCount, pairCount, perm.length_eq, ih]

/-- What is left over when neighbours are paired. -/
def leftOver : List α → Option α
  | [] => none
  | [a] => some a
  | _ :: _ :: rest => leftOver rest

theorem isSome_leftOver_iff {xs : List α} : (leftOver xs).isSome = true ↔ Odd xs.length := by
  induction xs using inPairs.induct with
  | case1 => simp [leftOver]
  | case2 a => simp [leftOver]
  | case3 a b rest ih =>
    rw [leftOver, ih, List.length_cons, List.length_cons]
    grind

theorem mem_of_leftOver {xs : List α} {a : α} (h : leftOver xs = some a) : a ∈ xs := by
  induction xs using inPairs.induct with
  | case1 => cases h
  | case2 b =>
    obtain rfl := Option.some.inj h
    exact List.mem_singleton_self b
  | case3 b c rest ih => exact List.mem_cons_of_mem b (List.mem_cons_of_mem c (ih h))

/-- Among different members, what is left over is the one in a pair with itself. -/
theorem eq_iff_leftOver {xs : List α} (different : xs.Nodup) {pair : α × α}
    (h : pair ∈ inPairs xs) : pair.1 = pair.2 ↔ leftOver xs = some pair.1 := by
  induction xs using inPairs.induct with
  | case1 => cases h
  | case2 a =>
    obtain rfl := List.mem_singleton.mp h
    simp [leftOver]
  | case3 a b rest ih =>
    rw [List.nodup_cons, List.nodup_cons, List.mem_cons] at different
    obtain ⟨apart, _, different⟩ := different
    rw [inPairs, List.mem_cons] at h
    rcases h with rfl | h
    · refine iff_of_false (fun same => apart (.inl same)) fun left => apart (.inr ?_)
      exact mem_of_leftOver left
    · exact ih different h

/-- Each of different members is in one pair. -/
theorem countP_inPairs [DecidableEq α] {xs : List α} (different : xs.Nodup) (a : α) :
    (inPairs xs).countP (fun pair => a = pair.1 ∨ a = pair.2) = xs.count a := by
  induction xs using inPairs.induct with
  | case1 => rfl
  | case2 b => by_cases same : a = b <;> simp [inPairs, same, Ne.symm]
  | case3 b c rest ih =>
    rw [List.nodup_cons, List.nodup_cons, List.mem_cons] at different
    obtain ⟨apart, _, different⟩ := different
    rw [inPairs, List.countP_cons, ih different, List.count_cons, List.count_cons]
    grind

end pairs

/-- The child is a blend of a pair. -/
def Blends (types : Registry) (pair : Answer × Answer) (c : Child) : Prop :=
  c.parents = [pair.1, pair.2] ∧ (Program.blend types pair.1.program pair.2.program).Gives c.program

theorem yields_blendPair (types : Registry) (pair : Answer × Answer) :
    (blendPair types pair).Yields (Blends types pair) := by
  refine (Draw.yields_gives _).bind ?_
  intro program drawn
  apply Draw.Yields.pure
  exact ⟨rfl, drawn⟩

/-- The groups are put in some order each, and then every pair has its children in turn. -/
theorem yields_blendGroups_order (types : Registry) (count : Nat) (groups : List (List Answer)) :
    (blendGroups types count groups).Yields fun children =>
      ∃ orders, List.Forall₂ List.Perm orders groups ∧
        List.Forall₂ (Blends types) ((orders.flatMap inPairs).flatMap (List.replicate count))
          children := by
  induction groups with
  | nil => exact .pure ⟨[], .nil, .nil⟩
  | cons group rest ih =>
    refine (Draw.yields_shuffle group).bind ?_
    intro order perm
    refine (Draw.Yields.forEach_replicate (fun pair _ => yields_blendPair types pair) count).bind ?_
    intro made first
    refine ih.bind ?_
    rintro others ⟨orders, perms, later⟩
    apply Draw.Yields.pure
    refine ⟨order :: orders, .cons perm perms, ?_⟩
    rw [List.flatMap_cons, List.flatMap_append]
    exact List.rel_append first later

theorem length_blendGroups (types : Registry) (count : Nat) (groups : List (List Answer)) :
    (blendGroups types count groups).Yields (·.length = count * pairCount groups) := by
  refine (yields_blendGroups_order types count groups).mono ?_
  rintro children ⟨orders, perms, made⟩
  rw [← made.length_eq, ← pairCount_of_perm perms, ← length_flatMap_inPairs]
  simp [Nat.mul_comm]

/-- So every child is a blend of two members of one group. -/
theorem yields_blendGroups_pair (types : Registry) (count : Nat) (groups : List (List Answer)) :
    (blendGroups types count groups).Yields fun children => ∀ c ∈ children,
      ∃ group ∈ groups, ∃ mom ∈ group, ∃ dad ∈ group, Blends types (mom, dad) c := by
  refine (yields_blendGroups_order types count groups).mono ?_
  rintro children ⟨orders, perms, made⟩ c member
  obtain ⟨k, there⟩ := List.mem_iff_getElem?.mp member
  obtain ⟨pair, found, blends⟩ := exists_getElem?_of_forall₂ made there
  obtain ⟨pair, paired, turn⟩ := List.mem_flatMap.mp (List.mem_of_getElem? found)
  obtain rfl := List.eq_of_mem_replicate turn
  obtain ⟨order, ordered, here⟩ := List.mem_flatMap.mp paired
  obtain ⟨j, place⟩ := List.mem_iff_getElem?.mp ordered
  obtain ⟨group, grouped, perm⟩ := exists_getElem?_of_forall₂ perms.flip place
  obtain ⟨mom, dad⟩ := mem_of_mem_inPairs here
  exact ⟨group, List.mem_of_getElem? grouped, _, perm.mem_iff.mp mom, _, perm.mem_iff.mp dad, blends⟩

end Evolution.Breeding
