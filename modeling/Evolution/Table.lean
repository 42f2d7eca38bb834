/-!
Tables: values filed under names, in the order in which the names first came in. Filing a value
under a name that is there replaces the value and keeps the place.
-/

namespace Evolution

/-- Values under distinct names, in order. -/
structure Table (α : Type) where
  entries : List (String × α)
  distinct : (entries.map Prod.fst).Nodup

namespace Table

variable {α β : Type}

def empty : Table α := ⟨[], List.nodup_nil⟩

instance : Inhabited (Table α) := ⟨empty⟩

def names (t : Table α) : List String := t.entries.map Prod.fst

def size (t : Table α) : Nat := t.entries.length

def get? (t : Table α) (name : String) : Option α := t.entries.lookup name

/-- Whether a name is filed. -/
def contains (t : Table α) (name : String) : Bool := t.names.contains name

/-- Puts a value under a name in a list of entries, in the name's place or at the end. -/
def put (name : String) (value : α) : List (String × α) → List (String × α)
  | [] => [(name, value)]
  | (key, old) :: rest =>
    if key = name then (key, value) :: rest else (key, old) :: put name value rest

theorem map_fst_put (name : String) (value : α) (entries : List (String × α)) :
    (put name value entries).map Prod.fst =
      if name ∈ entries.map Prod.fst then entries.map Prod.fst
      else entries.map Prod.fst ++ [name] := by
  induction entries with
  | nil => simp [put]
  | cons entry rest ih =>
    obtain ⟨key, old⟩ := entry
    by_cases h : key = name
    · simp [put, h]
    · have h' : ¬name = key := fun e => h e.symm
      simp only [put, h, if_false, List.map_cons, ih, List.mem_cons, h', false_or]
      split <;> simp

theorem nodup_put {entries : List (String × α)} (h : (entries.map Prod.fst).Nodup) (name : String)
    (value : α) : ((put name value entries).map Prod.fst).Nodup := by
  rw [map_fst_put]
  split
  · exact h
  · next absent =>
    exact List.nodup_append.2 ⟨h, by simp, by
      intro a ha b hb
      rw [List.mem_singleton] at hb
      exact fun e => absent (hb ▸ e ▸ ha)⟩

/-- The table with a value under a name. -/
def insert (t : Table α) (name : String) (value : α) : Table α :=
  ⟨put name value t.entries, nodup_put t.distinct name value⟩

/-- The table that has values put in one after the other. -/
def ofList (pairs : List (String × α)) : Table α :=
  pairs.foldl (fun t (name, value) => t.insert name value) empty

/-- The table with every value replaced by a function of its name and itself. -/
def map (f : String → α → β) (t : Table α) : Table β :=
  ⟨t.entries.map fun (name, value) => (name, f name value), by
    have h : (t.entries.map fun x => (x.1, f x.1 x.2)).map Prod.fst = t.entries.map Prod.fst := by
      simp [Function.comp_def]
    exact h ▸ t.distinct⟩

/-- The table of the named entries alone, in the order in which the names are given. The first name
that is not filed is refused. -/
def restrict (t : Table α) (names : List String) : Except String (Table α) :=
  names.foldlM (fun kept name =>
    match t.get? name with
    | some value => .ok (kept.insert name value)
    | none => .error name) empty

/-- The names after putting a value in: the old ones, and the new one last unless it was there. -/
theorem names_insert (t : Table α) (name : String) (value : α) :
    (t.insert name value).names = if name ∈ t.names then t.names else t.names ++ [name] :=
  map_fst_put name value t.entries

theorem lookup_entry (other name : String) (value : α) (rest : List (String × α)) :
    List.lookup other ((name, value) :: rest) =
      if other = name then some value else List.lookup other rest := by
  by_cases h : other = name
  · rw [List.lookup_cons, if_pos h, beq_iff_eq.2 h]
  · rw [List.lookup_cons, if_neg h, beq_eq_false_iff_ne.2 h]

/-- What was put in is found, and all else is as before. -/
theorem get?_insert (t : Table α) (name other : String) (value : α) :
    (t.insert name value).get? other = if other = name then some value else t.get? other := by
  have h : ∀ entries : List (String × α), (put name value entries).lookup other =
      if other = name then some value else entries.lookup other := by
    intro entries
    induction entries with
    | nil => simp [put, lookup_entry]
    | cons entry rest ih =>
      obtain ⟨key, old⟩ := entry
      rw [put]
      by_cases hk : key = name
      · subst hk
        by_cases e : other = key <;> simp [lookup_entry, e]
      · by_cases e : other = name
        · have h : ¬name = key := fun h => hk h.symm
          subst e
          simpa [lookup_entry, hk, h] using ih
        · simp [lookup_entry, hk, e, ih]
  exact h t.entries

end Table

end Evolution
