import MessageFormat.SortedMap
import Mathlib.Data.List.Lemmas
import Mathlib.Order.Basic

/-!
# Look-ups in sorted maps

What inserting does to look-ups and keys (`SortedMap.get?_insert`, `SortedMap.mem_keys_insert`), and
that a map is given by its look-ups (`SortedMap.ext_get?`) and its list of keys by its set of keys
(`SortedMap.keys_eq_of_mem_iff`).
-/

namespace MessageFormat.SortedMap

variable {α : Type} {map other : SortedMap α} {entries : List (String × α)} {key : String}

/-! ## Inserting -/

theorem lookup_cons_eq (k : String) (v : α) (rest : List (String × α)) (key : String) :
    ((k, v) :: rest).lookup key = if key = k then some v else rest.lookup key := by
  rw [List.lookup_cons]
  split_ifs with same
  · rw [same, beq_self_eq_true]
  · rw [beq_false_of_ne same]

theorem lookup_insertEntry (key : String) (value : α) (entries : List (String × α))
    (tried : String) : (insertEntry key value entries).lookup tried =
      if tried = key then some value else entries.lookup tried := by
  induction entries with
  | nil => rw [insertEntry, lookup_cons_eq]
  | cons head rest ih =>
    obtain ⟨k, v⟩ := head
    rw [insertEntry]
    split
    · rw [lookup_cons_eq]
    · rename_i notLess
      rw [lookup_cons_eq k v rest]
      split
      · -- The key belongs behind the head, whose own key is another one.
        rename_i greater
        rw [lookup_cons_eq, ih]
        by_cases same : tried = k
        · have apart : tried ≠ key := fun equal => String.ne_of_lt greater (same ▸ equal)
          rw [if_pos same, if_neg apart, if_pos same]
        · rw [if_neg same, if_neg same]
      · rename_i notGreater
        obtain rfl : key = k := String.le_antisymm notGreater notLess
        rw [lookup_cons_eq]
        split <;> rfl

@[simp] theorem get?_empty (key : String) : (empty : SortedMap α).get? key = none := rfl

theorem get?_insert (map : SortedMap α) (key : String) (value : α) (tried : String) :
    (map.insert key value).get? tried = if tried = key then some value else map.get? tried :=
  lookup_insertEntry key value map.entries tried

/-- Of entries with distinct keys each is found, and the others are found in the map as before. -/
theorem get?_insertAll (nodup : (entries.map Prod.fst).Nodup) (map : SortedMap α) (key : String) :
    (map.insertAll entries).get? key = (entries.lookup key).or (map.get? key) := by
  induction entries generalizing map with
  | nil => rfl
  | cons head rest ih =>
    obtain ⟨k, v⟩ := head
    rw [List.map_cons, List.nodup_cons] at nodup
    have later : (map.insertAll ((k, v) :: rest)).get? key =
        (rest.lookup key).or ((map.insert k v).get? key) := ih nodup.2 (map.insert k v)
    rw [later, get?_insert, lookup_cons_eq]
    split_ifs with same
    · have absent : rest.lookup k = none := by
        rw [List.lookup_eq_none_iff]
        exact fun entry he => bne_iff_ne.2 fun equal =>
          nodup.1 (List.mem_map.2 ⟨entry, he, equal.symm⟩)
      rw [same, absent, Option.none_or, Option.some_or]
    · rfl

/-! ## Keys -/

theorem pairwise_keys (map : SortedMap α) : map.keys.Pairwise (· < ·) :=
  List.pairwise_map.2 map.sorted

theorem nodup_keys (map : SortedMap α) : map.keys.Nodup :=
  map.pairwise_keys.imp String.ne_of_lt

theorem mem_keys_iff : key ∈ map.keys ↔ (map.get? key).isSome = true := by
  rw [get?, List.lookup_isSome_iff, keys, List.mem_map]
  exact exists_congr fun entry => and_congr_right fun _ => by rw [beq_iff_eq, eq_comm]

theorem mem_keys_insert {value : α} {tried : String} :
    tried ∈ (map.insert key value).keys ↔ tried = key ∨ tried ∈ map.keys := by
  rw [mem_keys_iff, mem_keys_iff, get?_insert]
  split_ifs with same <;> simp [same]

theorem mem_keys_insertAll :
    key ∈ (map.insertAll entries).keys ↔ key ∈ entries.map Prod.fst ∨ key ∈ map.keys := by
  induction entries generalizing map with
  | nil => simp [insertAll]
  | cons head rest ih =>
    have later : key ∈ (map.insertAll (head :: rest)).keys ↔
        key ∈ rest.map Prod.fst ∨ key ∈ (map.insert head.1 head.2).keys := ih
    rw [later, mem_keys_insert, List.map_cons, List.mem_cons, or_left_comm, or_assoc]

theorem mem_keys_ofList : key ∈ (ofList entries).keys ↔ key ∈ entries.map Prod.fst := by
  rw [ofList, mem_keys_insertAll]
  exact or_iff_left List.not_mem_nil

/-- Maps with the same keys list them alike. -/
theorem keys_eq_of_mem_iff {β : Type} {other : SortedMap β}
    (same : ∀ key, key ∈ map.keys ↔ key ∈ other.keys) : map.keys = other.keys :=
  List.Perm.eq_of_pairwise (fun _ _ _ _ less greater => absurd greater (String.lt_asymm less))
    map.pairwise_keys other.pairwise_keys
    ((List.perm_ext_iff_of_nodup map.nodup_keys other.nodup_keys).2 same)

/-! ## Equality -/

theorem mem_entries_iff {value : α} : (key, value) ∈ map.entries ↔ map.get? key = some value := by
  rw [get?, List.lookup_eq_some_iff]
  constructor
  · intro inside
    obtain ⟨before, behind, split⟩ := List.append_of_mem inside
    refine ⟨before, behind, split, fun entry he => bne_iff_ne.2 ?_⟩
    have sorted := map.sorted
    rw [split, List.pairwise_append] at sorted
    exact (String.ne_of_lt (sorted.2.2 entry he _ List.mem_cons_self)).symm
  · rintro ⟨before, behind, split, -⟩
    rw [split]
    exact List.mem_append_right _ List.mem_cons_self

theorem ext_get? (same : ∀ key, map.get? key = other.get? key) : map = other := by
  have members : ∀ entry, entry ∈ map.entries ↔ entry ∈ other.entries := fun (key, value) => by
    rw [mem_entries_iff, mem_entries_iff, same]
  have nodup (map : SortedMap α) : map.entries.Nodup :=
    map.sorted.imp fun less equal => String.ne_of_lt less (congrArg Prod.fst equal)
  have equal : map.entries = other.entries :=
    List.Perm.eq_of_pairwise (fun _ _ _ _ less greater => absurd greater (String.lt_asymm less))
      map.sorted other.sorted ((List.perm_ext_iff_of_nodup (nodup map) (nodup other)).2 members)
  cases map
  cases other
  cases equal
  rfl

theorem ofList_entries (map : SortedMap α) : ofList map.entries = map := by
  refine ext_get? fun key => ?_
  rw [ofList, get?_insertAll map.nodup_keys, get?_empty, Option.or_none, get?]

/-! ## The last match -/

/-- Searched from its end, a map gives what belongs to the greatest key for which there is anything. -/
theorem findSome?_reverse_entries_eq_some_iff {β : Type} {f : String × α → Option β} {b : β} :
    map.entries.reverse.findSome? f = some b ↔
      ∃ key value, map.get? key = some value ∧ f (key, value) = some b ∧
        ∀ later w, map.get? later = some w → key < later → f (later, w) = none := by
  simp only [← mem_entries_iff]
  rw [List.findSome?_eq_some_iff]
  constructor
  · rintro ⟨behind, ⟨key, value⟩, before, split, found, missing⟩
    have entries : map.entries = before.reverse ++ (key, value) :: behind.reverse := by
      rw [← List.reverse_reverse map.entries, split]
      simp
    have sorted := map.sorted
    rw [entries, List.pairwise_append] at sorted
    refine ⟨key, value, ?_, found, fun later w inside less => missing _ ?_⟩
    · rw [entries]
      exact List.mem_append_right _ List.mem_cons_self
    · rw [entries, List.mem_append, List.mem_cons] at inside
      rcases inside with smaller | same | greater
      · exact absurd less (String.lt_asymm (sorted.2.2 _ smaller _ List.mem_cons_self))
      · exact absurd (congrArg Prod.fst same) (String.ne_of_lt less).symm
      · exact List.mem_reverse.1 greater
  · rintro ⟨key, value, inside, found, missing⟩
    obtain ⟨before, behind, split⟩ := List.append_of_mem inside
    refine ⟨behind.reverse, (key, value), before.reverse, by simp [split], found, fun entry he => ?_⟩
    rw [List.mem_reverse] at he
    have sorted := map.sorted
    rw [split, List.pairwise_append, List.pairwise_cons] at sorted
    refine missing entry.1 entry.2 ?_ (sorted.2.1.1 entry he)
    rw [split]
    exact List.mem_append_right _ (List.mem_cons_of_mem _ he)

end MessageFormat.SortedMap
