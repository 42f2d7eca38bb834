import Evolution.Proofs.Checks
import Evolution.Table
import Mathlib.Algebra.BigOperators.Group.List.Basic
import Mathlib.Data.List.Nodup

/-! Tables: what is found in them, what stays when they are restricted, and what all their values add
up to. -/

namespace Evolution.Table

variable {α : Type}

@[simp]
theorem names_empty : (empty : Table α).names = [] := rfl

theorem contains_iff {t : Table α} {name : String} : t.contains name = true ↔ name ∈ t.names := by
  simp [contains]

theorem exists_get?_of_contains {t : Table α} {name : String} (h : t.contains name = true) :
    ∃ value, t.get? name = some value := by
  have filed : name ∈ t.entries.map Prod.fst := contains_iff.mp h
  unfold get?
  generalize t.entries = entries at filed
  induction entries with
  | nil => simp at filed
  | cons entry rest ih =>
    obtain ⟨key, value⟩ := entry
    rw [lookup_entry]
    by_cases same : name = key
    · exact ⟨value, if_pos same⟩
    · rw [if_neg same]
      apply ih
      simpa [same] using filed

theorem mem_entries_of_get? {t : Table α} {name : String} {value : α}
    (h : t.get? name = some value) : (name, value) ∈ t.entries := by
  obtain ⟨before, after, same, _⟩ := List.lookup_eq_some_iff.mp h
  simp [same]

theorem get?_of_mem_entries {t : Table α} {name : String} {value : α}
    (h : (name, value) ∈ t.entries) : t.get? name = some value := by
  obtain ⟨filed, found⟩ := exists_get?_of_contains (contains_iff.mpr (List.mem_map_of_mem h))
  have same := List.inj_on_of_nodup_map t.distinct (mem_entries_of_get? found) h rfl
  rw [found, (Prod.mk.inj same).2]

theorem insert_insert (t : Table α) (name : String) (old new : α) :
    (t.insert name old).insert name new = t.insert name new := by
  have twice : ∀ entries, put name new (put name old entries) = put name new entries := by
    intro entries
    induction entries with
    | nil => simp [put]
    | cons entry rest ih => by_cases here : entry.1 = name <;> simp [put, here, ih]
  simp only [insert, twice]

/-- To put in what is there changes nothing. -/
theorem insert_of_get? {t : Table α} {name : String} {value : α} (h : t.get? name = some value) :
    t.insert name value = t := by
  obtain ⟨entries, distinct⟩ := t
  have same : ∀ entries, entries.lookup name = some value → put name value entries = entries := by
    intro entries there
    induction entries with
    | nil => cases there
    | cons entry rest ih =>
      rw [lookup_entry] at there
      by_cases here : name = entry.1
      · obtain rfl := Option.some.inj ((if_pos here).symm.trans there)
        rw [put, if_pos here.symm]
      · rw [put, if_neg (Ne.symm here), ih ((if_neg here).symm.trans there)]
  simp only [insert, same entries h]

theorem contains_of_get? {t : Table α} {name : String} {value : α} (h : t.get? name = some value) :
    t.contains name = true :=
  contains_iff.mpr (List.mem_map_of_mem (mem_entries_of_get? h))

theorem get?_eq_none {t : Table α} {name : String} (h : t.contains name = false) :
    t.get? name = none := by
  cases found : t.get? name with
  | none => rfl
  | some value => simp [contains_of_get? found] at h

theorem contains_eq_isSome (t : Table α) (name : String) : t.contains name = (t.get? name).isSome := by
  rw [Bool.eq_iff_iff, Option.isSome_iff_exists]
  exact ⟨exists_get?_of_contains, fun ⟨_, found⟩ => contains_of_get? found⟩

theorem names_insert_of_contains {t : Table α} {name : String} (h : t.contains name = true)
    (value : α) : (t.insert name value).names = t.names := by
  rw [names_insert, if_pos (contains_iff.mp h)]

theorem mem_names_insert {t : Table α} {name other : String} {value : α} :
    other ∈ (t.insert name value).names ↔ other ∈ t.names ∨ other = name := by
  rw [names_insert]
  split
  · next filed => exact ⟨.inl, fun h => h.elim id (· ▸ filed)⟩
  · simp

theorem mem_names_ofList {pairs : List (String × α)} {name : String} :
    name ∈ (ofList pairs).names ↔ name ∈ pairs.map Prod.fst := by
  suffices more : ∀ start : Table α,
      name ∈ (pairs.foldl (fun t pair => t.insert pair.1 pair.2) start).names ↔
        name ∈ start.names ∨ name ∈ pairs.map Prod.fst by
    exact (more empty).trans (by simp)
  induction pairs with
  | nil => simp
  | cons pair rest ih =>
    intro start
    rw [List.foldl_cons, ih, mem_names_insert, List.map_cons, List.mem_cons, or_assoc]

theorem size_insert (t : Table α) (name : String) (value : α) :
    (t.insert name value).size = t.size + if (t.get? name).isNone then 1 else 0 := by
  have names : (t.insert name value).names.length = _ :=
    congrArg List.length (names_insert t name value)
  simp only [Table.names, List.length_map] at names
  rw [size, names, size]
  cases found : t.get? name with
  | some old =>
    have filed : name ∈ t.entries.map Prod.fst := contains_iff.mp (contains_of_get? found)
    simp [filed]
  | none =>
    have absent : name ∉ t.entries.map Prod.fst := by
      intro filed
      obtain ⟨old, there⟩ := exists_get?_of_contains (contains_iff.mpr filed)
      simp [found] at there
    simp [absent]

theorem get?_map {β : Type} (f : String → α → β) (t : Table α) (name : String) :
    (t.map f).get? name = (t.get? name).map (f name) := by
  change (t.entries.map fun entry => (entry.1, f entry.1 entry.2)).lookup name =
    (t.entries.lookup name).map (f name)
  induction t.entries with
  | nil => rfl
  | cons entry rest ih =>
    obtain ⟨key, value⟩ := entry
    rw [List.map_cons, lookup_entry, lookup_entry, ih]
    split
    · next same => rw [same, Option.map_some]
    · rfl

/-- Values put in over those of a table are the ones that are found. -/
theorem get?_foldl_insert {entries : List (String × α)} (distinct : (entries.map Prod.fst).Nodup)
    (base : Table α) (name : String) :
    (entries.foldl (fun t (name, value) => t.insert name value) base).get? name =
      (entries.lookup name).or (base.get? name) := by
  induction entries generalizing base with
  | nil => rfl
  | cons entry rest ih =>
    obtain ⟨key, value⟩ := entry
    obtain ⟨absent, distinct⟩ := List.nodup_cons.mp distinct
    rw [List.foldl_cons, ih distinct, get?_insert, lookup_entry]
    by_cases same : name = key
    · have once : rest.lookup key = none := get?_eq_none (t := ⟨rest, distinct⟩) (by
        simpa [contains, names] using absent)
      rw [same, once, if_pos rfl, if_pos rfl, Option.none_or, Option.some_or]
    · rw [if_neg same, if_neg same]

section total

variable {M : Type} [AddCommMonoid M]

/-- A sum over a table to which only the entry of one name contributes. -/
theorem sum_map_of_get? {t : Table α} {name : String} {value : α}
    (found : t.get? name = some value) (share : String × α → M)
    (only : ∀ entry ∈ t.entries, entry.1 ≠ name → share entry = 0) :
    (t.entries.map share).sum = share (name, value) := by
  obtain ⟨entries, distinct⟩ := t
  change entries.lookup name = some value at found
  change ∀ entry ∈ entries, entry.1 ≠ name → share entry = 0 at only
  change (entries.map share).sum = share (name, value)
  induction entries with
  | nil => cases found
  | cons entry rest ih =>
    obtain ⟨key, first⟩ := entry
    obtain ⟨absent, distinct⟩ := List.nodup_cons.mp distinct
    obtain ⟨here, others⟩ := List.forall_mem_cons.mp only
    rw [lookup_entry] at found
    rw [List.map_cons, List.sum_cons]
    by_cases same : name = key
    · obtain rfl := Option.some.inj ((if_pos same).symm.trans found)
      subst same
      have none : (rest.map share).sum = 0 := by
        refine List.sum_eq_zero fun n member => ?_
        obtain ⟨other, there, rfl⟩ := List.mem_map.mp member
        exact others other there fun equal => absent (List.mem_map.mpr ⟨other, there, equal⟩)
      rw [none, add_zero]
    · rw [if_neg same] at found
      rw [here (Ne.symm same), zero_add, ih distinct found others]

variable (weigh : α → M)

/-- The weights of all values together. -/
def total (t : Table α) : M := (t.entries.map (weigh ·.2)).sum

/-- A value that is replaced gives its weight for that of the new one. -/
theorem total_insert_of_get? {t : Table α} {name : String} {old : α} (h : t.get? name = some old)
    (new : α) : (t.insert name new).total weigh + weigh old = t.total weigh + weigh new := by
  unfold get? at h
  change ((put name new t.entries).map (weigh ·.2)).sum + weigh old =
    (t.entries.map (weigh ·.2)).sum + weigh new
  generalize t.entries = entries at h
  induction entries with
  | nil => simp at h
  | cons entry rest ih =>
    obtain ⟨key, value⟩ := entry
    rw [lookup_entry] at h
    by_cases same : name = key
    · obtain rfl := Option.some.inj ((if_pos same).symm.trans h)
      simp only [put, same, if_true, List.map_cons, List.sum_cons]
      rw [add_comm (weigh new), add_right_comm, add_comm (weigh value)]
    · rw [if_neg same] at h
      have different : ¬key = name := fun h => same h.symm
      simp only [put, different, if_false, List.map_cons, List.sum_cons, add_assoc]
      exact congrArg (weigh value + ·) (ih h)

theorem total_insert_of_absent {t : Table α} {name : String} (h : t.get? name = none) (new : α) :
    (t.insert name new).total weigh = t.total weigh + weigh new := by
  unfold get? at h
  change ((put name new t.entries).map (weigh ·.2)).sum =
    (t.entries.map (weigh ·.2)).sum + weigh new
  generalize t.entries = entries at h
  induction entries with
  | nil => simp [put]
  | cons entry rest ih =>
    obtain ⟨key, value⟩ := entry
    rw [lookup_entry] at h
    by_cases same : name = key
    · simp [same] at h
    · rw [if_neg same] at h
      have different : ¬key = name := fun h => same h.symm
      simp only [put, different, if_false, List.map_cons, List.sum_cons, add_assoc]
      exact congrArg (weigh value + ·) (ih h)

end total

/-- Takes over the entry of a name into another table. -/
def keep (t kept : Table α) (name : String) : Except String (Table α) :=
  match t.get? name with
  | some value => .ok (kept.insert name value)
  | none => .error name

theorem restrict_eq_foldlM (t : Table α) (names : List String) :
    t.restrict names = names.foldlM t.keep empty := rfl

theorem keep_eq_ok_iff {t kept kept' : Table α} {name : String} :
    t.keep kept name = .ok kept' ↔ ∃ value, t.get? name = some value ∧
      kept' = kept.insert name value := by
  unfold keep
  cases t.get? name <;> simp [eq_comm]

theorem foldlM_keep {t start kept : Table α} {names : List String}
    (h : names.foldlM t.keep start = .ok kept) :
    (∀ name, kept.get? name = if name ∈ names then t.get? name else start.get? name) ∧
      kept.names = start.names ++ (names.filter (· ∉ start.names)).eraseDups := by
  induction names generalizing start with
  | nil =>
    obtain rfl := Except.ok.inj h
    simp
  | cons first rest ih =>
    rw [List.foldlM_cons] at h
    obtain ⟨next, taken, h⟩ := bind_eq_ok_iff.mp h
    obtain ⟨value, found, rfl⟩ := keep_eq_ok_iff.mp taken
    obtain ⟨entries, names⟩ := ih h
    refine ⟨fun name => ?_, ?_⟩
    · rw [entries, get?_insert]
      by_cases here : name = first
      · simp [here, found]
      · simp [here]
    · rw [names, names_insert]
      by_cases old : first ∈ start.names
      · simp [old]
      · have split : rest.filter (· ∉ start.names ++ [first]) =
            (rest.filter (· ∉ start.names)).filter (fun name => !name == first) := by
          rw [List.filter_filter]
          refine List.filter_congr fun name _ => ?_
          rw [Bool.eq_iff_iff]
          simp [and_comm]
        rw [if_neg old, split, List.filter_cons_of_pos (by simpa using old), List.eraseDups_cons,
          List.append_assoc, List.singleton_append]

/-- A restriction holds what was there under the given names. -/
theorem get?_restrict {t kept : Table α} {names : List String} (h : t.restrict names = .ok kept)
    (name : String) : kept.get? name = if name ∈ names then t.get? name else none :=
  (foldlM_keep h).1 name

/-- The names of a restriction stand in the order in which they are first given. -/
theorem names_restrict {t kept : Table α} {names : List String} (h : t.restrict names = .ok kept) :
    kept.names = names.eraseDups := by
  simpa using (foldlM_keep h).2

theorem get?_of_restrict {t kept : Table α} {names : List String}
    (h : t.restrict names = .ok kept) {name : String} {value : α}
    (found : kept.get? name = some value) : t.get? name = some value := by
  rw [get?_restrict h] at found
  split at found
  · exact found
  · cases found

/-- The first of some names that is not among the known ones. -/
def FirstUnknown (known names : List String) (name : String) : Prop :=
  ∃ before after, names = before ++ name :: after ∧ (∀ other ∈ before, other ∈ known) ∧ name ∉ known

/-- The error of a restriction is the first name that is not filed. -/
theorem restrict_eq_error_iff {t : Table α} {names : List String} {name : String} :
    t.restrict names = .error name ↔ FirstUnknown t.names names name := by
  let check : String → Except String Unit := fun name =>
    if name ∈ t.names then .ok () else .error name
  have alike : ∀ kept name, (t.keep kept name).map (fun _ => ()) = check name := by
    intro kept name
    by_cases filed : name ∈ t.names
    · obtain ⟨value, found⟩ := exists_get?_of_contains (contains_iff.mpr filed)
      simp [check, filed, keep, found, Except.map]
    · have absent := get?_eq_none (Bool.eq_false_iff.mpr (mt contains_iff.mp filed))
      simp [check, filed, keep, absent, Except.map]
  have passes : ∀ name, check name = .ok () ↔ name ∈ t.names := by
    intro name
    by_cases filed : name ∈ t.names <;> simp [check, filed]
  have fails : ∀ other, check other = .error name ↔ other = name ∧ name ∉ t.names := by
    intro other
    by_cases filed : other ∈ t.names
    · simp only [check, filed, if_true, reduceCtorEq, false_iff]
      rintro ⟨rfl, absent⟩
      exact absent filed
    · simp only [check, filed, if_false, Except.error.injEq]
      exact ⟨fun same => ⟨same, same ▸ filed⟩, And.left⟩
  have same := map_foldlM_eq_forM (l := names) alike empty
  have failed : t.restrict names = .error name ↔ names.forM check = .error name := by
    rw [← same, restrict_eq_foldlM]
    cases names.foldlM t.keep empty <;> simp [Except.map]
  rw [failed, forM_eq_error_iff]
  simp only [passes, fails]
  constructor
  · rintro ⟨before, _, after, split, known, rfl, absent⟩
    exact ⟨before, after, split, known, absent⟩
  · rintro ⟨before, after, split, known, absent⟩
    exact ⟨before, name, after, split, known, rfl, absent⟩

end Evolution.Table
