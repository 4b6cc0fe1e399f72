/-!
Maps from strings, kept in the order of their keys.
-/

namespace MessageFormat

structure SortedMap (α : Type) where
  entries : List (String × α)
  sorted : entries.Pairwise (·.1 < ·.1)

namespace SortedMap

variable {α : Type}

instance [DecidableEq α] : DecidableEq (SortedMap α) := fun a b =>
  if h : a.entries = b.entries then isTrue (by cases a; cases b; simp_all)
  else isFalse fun equal => h (congrArg entries equal)

def empty : SortedMap α := ⟨[], .nil⟩

instance : Inhabited (SortedMap α) := ⟨empty⟩

def insertEntry (key : String) (value : α) : List (String × α) → List (String × α)
  | [] => [(key, value)]
  | (k, v) :: rest =>
      if key < k then (key, value) :: (k, v) :: rest
      else if k < key then (k, v) :: insertEntry key value rest
      else (key, value) :: rest

theorem mem_insertEntry {key : String} {value : α} {entries : List (String × α)}
    {entry : String × α} (h : entry ∈ insertEntry key value entries) :
    entry = (key, value) ∨ entry ∈ entries := by
  induction entries with
  | nil => simpa [insertEntry] using h
  | cons head rest ih =>
      obtain ⟨k, v⟩ := head
      simp only [insertEntry] at h
      split at h
      · simpa using h
      · split at h
        · rcases List.mem_cons.mp h with rfl | h
          · simp
          · rcases ih h with rfl | h <;> simp_all
        · rcases List.mem_cons.mp h with rfl | h <;> simp_all

theorem insertEntry_sorted {key : String} {value : α} {entries : List (String × α)}
    (h : entries.Pairwise (·.1 < ·.1)) : (insertEntry key value entries).Pairwise (·.1 < ·.1) := by
  induction entries with
  | nil => simp [insertEntry]
  | cons head rest ih =>
      obtain ⟨k, v⟩ := head
      obtain ⟨above, tail⟩ := List.pairwise_cons.mp h
      simp only [insertEntry]
      split
      · rename_i less
        refine List.pairwise_cons.mpr ⟨fun entry member => ?_, h⟩
        rcases List.mem_cons.mp member with rfl | member
        · exact less
        · exact String.lt_trans less (above entry member)
      · rename_i notLess
        split
        · rename_i greater
          refine List.pairwise_cons.mpr ⟨fun entry member => ?_, ih tail⟩
          rcases mem_insertEntry member with rfl | member
          · exact greater
          · exact above entry member
        · rename_i notGreater
          obtain rfl : key = k := String.le_antisymm notGreater notLess
          exact List.pairwise_cons.mpr ⟨above, tail⟩

def insert (map : SortedMap α) (key : String) (value : α) : SortedMap α :=
  ⟨insertEntry key value map.entries, insertEntry_sorted map.sorted⟩

def insertAll (map : SortedMap α) (entries : List (String × α)) : SortedMap α :=
  entries.foldl (fun map entry => map.insert entry.1 entry.2) map

/-- The map of some entries; the last one with a key counts. -/
def ofList (entries : List (String × α)) : SortedMap α :=
  empty.insertAll entries

def get? (map : SortedMap α) (key : String) : Option α :=
  map.entries.lookup key

def contains (map : SortedMap α) (key : String) : Bool :=
  (map.get? key).isSome

def keys (map : SortedMap α) : List String :=
  map.entries.map (·.1)

def isEmpty (map : SortedMap α) : Bool :=
  map.entries.isEmpty

end SortedMap

end MessageFormat
