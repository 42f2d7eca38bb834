import Evolution.Table

/-!
Sorted tables: values under names in the order of the names, which is the order of their code
points. Two sorted tables with the same entries are equal, whatever the order in which they were
filled. A set of names is a sorted table without values.
-/

namespace Evolution

/-- Values under names, sorted by name. -/
structure SortedTable (α : Type) where
  entries : List (String × α)
  sorted : (entries.map Prod.fst).Pairwise (· < ·)
deriving DecidableEq

namespace SortedTable

variable {α : Type}

def empty : SortedTable α := ⟨[], .nil⟩

instance : Inhabited (SortedTable α) := ⟨empty⟩

def names (t : SortedTable α) : List String := t.entries.map Prod.fst

def get? (t : SortedTable α) (name : String) : Option α := t.entries.lookup name

def contains (t : SortedTable α) (name : String) : Bool := t.names.contains name

/-- Puts a value under a name in a sorted list of entries. -/
def put (name : String) (value : α) : List (String × α) → List (String × α)
  | [] => [(name, value)]
  | (key, old) :: rest =>
    if name < key then (name, value) :: (key, old) :: rest
    else if name = key then (name, value) :: rest
    else (key, old) :: put name value rest

theorem mem_put {name other : String} {value : α} {entries : List (String × α)}
    (h : other ∈ (put name value entries).map Prod.fst) :
    other = name ∨ other ∈ entries.map Prod.fst := by
  induction entries with
  | nil => simpa [put] using h
  | cons entry rest ih =>
    obtain ⟨key, old⟩ := entry
    rw [put] at h
    split at h
    · simpa using h
    · split at h
      · next same => subst same; simpa using h
      · rcases List.mem_cons.1 h with here | there
        · exact .inr (List.mem_cons.2 (.inl here))
        · exact (ih there).imp_right (List.mem_cons_of_mem _)

theorem sorted_put {entries : List (String × α)} (h : (entries.map Prod.fst).Pairwise (· < ·))
    (name : String) (value : α) : ((put name value entries).map Prod.fst).Pairwise (· < ·) := by
  induction entries with
  | nil => simp [put]
  | cons entry rest ih =>
    obtain ⟨key, old⟩ := entry
    have ⟨least, tail⟩ := List.pairwise_cons.1 h
    rw [put]
    split
    · next before =>
      refine List.pairwise_cons.2 ⟨fun other mem => ?_, h⟩
      rcases List.mem_cons.1 mem with here | there
      · exact here ▸ before
      · exact String.lt_trans before (least other there)
    · split
      · next same => exact same ▸ h
      · next notBefore notSame =>
        refine List.pairwise_cons.2 ⟨fun other mem => ?_, ih tail⟩
        rcases mem_put mem with here | there
        · subst here
          exact Decidable.byContradiction fun notAfter =>
            notSame (String.le_antisymm (String.not_lt.1 notAfter) (String.not_lt.1 notBefore))
        · exact least other there

/-- The table with a value under a name. -/
def insert (t : SortedTable α) (name : String) (value : α) : SortedTable α :=
  ⟨put name value t.entries, sorted_put t.sorted name value⟩

def erase (t : SortedTable α) (name : String) : SortedTable α :=
  ⟨t.entries.filter (·.1 ≠ name), t.sorted.sublist (List.filter_sublist.map _)⟩

/-- The table that has values put in one after the other. -/
def ofList (pairs : List (String × α)) : SortedTable α :=
  pairs.foldl (fun t (name, value) => t.insert name value) empty

/-- What was put in is found, and all else is as before. -/
theorem get?_insert (t : SortedTable α) (name other : String) (value : α) :
    (t.insert name value).get? other = if other = name then some value else t.get? other := by
  have h : ∀ entries : List (String × α), (put name value entries).lookup other =
      if other = name then some value else entries.lookup other := by
    intro entries
    induction entries with
    | nil => rw [put, Table.lookup_entry]
    | cons entry rest ih =>
      obtain ⟨key, old⟩ := entry
      rw [put]
      split
      · rw [Table.lookup_entry]
      · split
        · next same =>
          rw [Table.lookup_entry, Table.lookup_entry]
          split
          · rfl
          · next absent => rw [if_neg (same ▸ absent)]
        · next different =>
          rw [Table.lookup_entry, Table.lookup_entry, ih]
          split
          · next here =>
            have apart : ¬other = name := fun same => different (same.symm.trans here)
            rw [if_neg apart]
          · rfl
  exact h t.entries

end SortedTable

/-- A sorted set of names. -/
abbrev NameSet := SortedTable Unit

/-- The set of the names in a list. -/
def NameSet.ofNames (names : List String) : NameSet :=
  SortedTable.ofList (names.map (·, ()))

end Evolution
