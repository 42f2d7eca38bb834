import Evolution.SortedTable
import Mathlib.Data.List.Basic

/-! Sorted tables are made again from their entries, and a name that is filed twice keeps the last
value. -/

namespace Evolution

namespace SortedTable

variable {α : Type}

theorem eq_of_entries {t u : SortedTable α} (same : t.entries = u.entries) : t = u := by
  obtain ⟨_, _⟩ := t
  obtain ⟨_, _⟩ := u
  cases same
  rfl

theorem put_eq_append {name : String} {entries : List (String × α)}
    (last : ∀ key ∈ entries.map Prod.fst, key < name) (value : α) :
    put name value entries = entries ++ [(name, value)] := by
  induction entries with
  | nil => rfl
  | cons entry rest ih =>
    obtain ⟨key, old⟩ := entry
    obtain ⟨before, others⟩ := List.forall_mem_cons.mp last
    have notAfter : ¬name < key :=
      fun after => String.lt_irrefl name (String.lt_trans after before)
    have apart : name ≠ key := (String.ne_of_lt before).symm
    rw [put, if_neg notAfter, if_neg apart, ih others, List.cons_append]

theorem entries_foldl_insert (rest : List (String × α)) (t : SortedTable α)
    (sorted : ((t.entries ++ rest).map Prod.fst).Pairwise (· < ·)) :
    (rest.foldl (fun t (name, value) => t.insert name value) t).entries = t.entries ++ rest := by
  induction rest generalizing t with
  | nil => simp
  | cons entry rest ih =>
    obtain ⟨name, value⟩ := entry
    have last : ∀ key ∈ t.entries.map Prod.fst, key < name := by
      rw [List.map_append, List.pairwise_append] at sorted
      exact fun key member => sorted.2.2 key member name List.mem_cons_self
    have inserted : (t.insert name value).entries = t.entries ++ [(name, value)] :=
      put_eq_append last value
    have shape : (t.insert name value).entries ++ rest = t.entries ++ (name, value) :: rest := by
      rw [inserted, List.append_assoc, List.singleton_append]
    rw [List.foldl_cons, ih _ (shape ▸ sorted), shape]

@[simp]
theorem ofList_entries (t : SortedTable α) : ofList t.entries = t :=
  eq_of_entries (entries_foldl_insert t.entries empty t.sorted)

theorem put_put (name : String) (old new : α) (entries : List (String × α)) :
    put name new (put name old entries) = put name new entries := by
  induction entries with
  | nil => simp [put]
  | cons entry rest ih =>
    obtain ⟨key, value⟩ := entry
    rw [put, put]
    split
    · simp [put]
    · next notBefore =>
      split
      · simp [put]
      · next apart => rw [put, if_neg notBefore, if_neg apart, ih]

@[simp]
theorem insert_insert (t : SortedTable α) (name : String) (old new : α) :
    (t.insert name old).insert name new = t.insert name new :=
  eq_of_entries (put_put name old new t.entries)

end SortedTable

@[simp]
theorem NameSet.ofNames_names (s : NameSet) : ofNames s.names = s := by
  have entries : s.names.map (·, ()) = s.entries := by
    rw [SortedTable.names, List.map_map]
    exact List.map_id s.entries
  rw [ofNames, entries, SortedTable.ofList_entries]

end Evolution
