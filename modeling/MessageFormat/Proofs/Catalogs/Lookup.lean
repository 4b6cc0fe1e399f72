import MessageFormat.Catalogs
import MessageFormat.Proofs.SortedMap
import Mathlib.Order.Basic

/-!
# Look-ups in catalogs

A look-up gives the entry of the first candidate that has one (`Catalogs.lookup?_eq_findSome?`). The
ids of a locale are those for which there is such an entry (`Catalogs.mem_ids_iff`).
-/

namespace MessageFormat.Catalogs

variable {catalogs other : Catalogs} {locale tag id : String} {found : String × CatalogEntry}

/-- The entry that a look-up finds when it tries a tag. -/
def entryAt (catalogs : Catalogs) (id tag : String) : Option (String × CatalogEntry) :=
  ((catalogs.catalog tag).get? id).map (tag, ·)

theorem fst_of_entryAt (h : catalogs.entryAt id tag = some found) : found.1 = tag := by
  obtain ⟨entry, -, rfl⟩ := Option.map_eq_some_iff.1 h
  rfl

theorem isSome_entryAt : (catalogs.entryAt id tag).isSome = true ↔
    id ∈ (catalogs.catalog tag).keys := by
  rw [entryAt, Option.isSome_map, SortedMap.mem_keys_iff]

theorem lookup?_eq_findSome? (catalogs : Catalogs) (locale id : String) :
    catalogs.lookup? locale id = (Locale.candidates [locale]).findSome? (catalogs.entryAt id) := by
  rw [lookup?, Locale.closest?]
  induction Locale.candidates [locale] with
  | nil => rfl
  | cons tag rest ih =>
    rw [List.find?_cons, List.findSome?_cons, SortedMap.contains, entryAt]
    cases found : (catalogs.catalog tag).get? id with
    | none => exact ih
    | some entry => simp [found]

theorem mem_of_findSome?_entryAt {tags : List String}
    (h : tags.findSome? (catalogs.entryAt id) = some found) :
    found.1 ∈ tags ∧ catalogs.entryAt id found.1 = some found := by
  obtain ⟨tag, inside, here⟩ := List.exists_of_findSome?_eq_some h
  rw [fst_of_entryAt here]
  exact ⟨inside, here⟩

/-! ## Known ids -/

theorem mem_ids_iff : id ∈ catalogs.ids locale ↔ (catalogs.lookup? locale id).isSome = true := by
  rw [lookup?_eq_findSome?, List.findSome?_isSome_iff]
  simp only [isSome_entryAt]
  rw [ids, SortedMap.mem_keys_ofList, List.map_map]
  simp [List.mem_flatMap]

theorem nodup_ids (catalogs : Catalogs) (locale : String) : (catalogs.ids locale).Nodup :=
  SortedMap.nodup_keys _

/-- The list of known ids depends on nothing but the set of ids that can be looked up. -/
theorem ids_eq_of_isSome_lookup? {l : String}
    (same : ∀ id, (catalogs.lookup? locale id).isSome = (other.lookup? l id).isSome) :
    catalogs.ids locale = other.ids l := by
  refine SortedMap.keys_eq_of_mem_iff fun id => ?_
  have left : id ∈ catalogs.ids locale ↔ _ := mem_ids_iff
  have right : id ∈ other.ids l ↔ _ := mem_ids_iff
  rw [ids] at left right
  rw [left, right, same]

end MessageFormat.Catalogs
