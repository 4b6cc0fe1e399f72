import MessageFormat.Proofs.Catalogs.Lookup
import MessageFormat.Proofs.Locale.Search

/-!
# Fallback in catalogs

A look-up gives the entry of the first candidate that has the id, and the ids of a locale, in their
order and without repetition, are those that such a look-up finds (`Catalogs.lookup?_and_ids`).
-/

namespace MessageFormat.Catalogs

variable {catalogs : Catalogs} {locale tag id : String} {entry : CatalogEntry}

theorem entryAt_eq_some_iff {tried : String} : catalogs.entryAt id tried = some (tag, entry) ↔
    tried = tag ∧ (catalogs.catalog tag).get? id = some entry := by
  rw [entryAt, Option.map_eq_some_iff]
  constructor
  · rintro ⟨found, here, same⟩
    cases same
    exact ⟨rfl, here⟩
  · rintro ⟨rfl, here⟩
    exact ⟨entry, here, rfl⟩

theorem entryAt_eq_none_iff : catalogs.entryAt id tag = none ↔
    (catalogs.catalog tag).get? id = none := by
  rw [entryAt, Option.map_eq_none_iff]

theorem lookup?_eq_some_iff : catalogs.lookup? locale id = some (tag, entry) ↔
    ∃ before behind, Locale.candidates [locale] = before ++ tag :: behind ∧
      (catalogs.catalog tag).get? id = some entry ∧
      ∀ earlier ∈ before, (catalogs.catalog earlier).get? id = none := by
  rw [lookup?_eq_findSome?, List.findSome?_eq_some_iff]
  simp only [entryAt_eq_some_iff, entryAt_eq_none_iff]
  constructor
  · rintro ⟨before, tried, behind, split, ⟨rfl, here⟩, missing⟩
    exact ⟨before, behind, split, here, missing⟩
  · rintro ⟨before, behind, split, here, missing⟩
    exact ⟨before, tag, behind, split, ⟨rfl, here⟩, missing⟩

/-- The candidates of a locale, as far as it is not blank, begin with its normalized tag and go on
with front parts of that. A look-up gives the first of them that has the id, and its entry. The ids
of a locale are sorted, and they are those for which there is one. -/
theorem lookup?_and_ids (catalogs : Catalogs) (locale : String)
    (filled : Locale.normalize locale ≠ "") :
    (∃ shorter, Locale.candidates [locale] = Locale.normalize locale :: shorter ∧
      Locale.IsFallback (Locale.normalize locale) (Locale.normalize locale :: shorter)) ∧
    (∀ id tag entry, catalogs.lookup? locale id = some (tag, entry) ↔
      ∃ before behind, Locale.candidates [locale] = before ++ tag :: behind ∧
        (catalogs.catalog tag).get? id = some entry ∧
        ∀ earlier ∈ before, (catalogs.catalog earlier).get? id = none) ∧
    (catalogs.ids locale).Pairwise (· < ·) ∧
    ∀ id, id ∈ catalogs.ids locale ↔
      ∃ tag entry, catalogs.lookup? locale id = some (tag, entry) := by
  refine ⟨?_, fun _ _ _ => lookup?_eq_some_iff, SortedMap.pairwise_keys _, fun id => ?_⟩
  · have fallback := Locale.isFallback_chain locale
    have head := fallback.head
    rw [if_neg filled] at head
    obtain ⟨shorter, split⟩ := List.head?_eq_some_iff.1 head
    rw [split] at fallback
    exact ⟨shorter, by rw [Locale.candidates_singleton, split], fallback⟩
  · rw [mem_ids_iff, Option.isSome_iff_exists, Prod.exists]

theorem lookup?_and_ids_swiss :
    let catalogs := ((empty.insert "de" "a" (.pattern "A")).insert "DE_ch" "b" (.pattern "B")).extend
      "de-CH-1996" []
    Locale.normalize "de_CH-1996" ≠ "" ∧
      catalogs.lookup? "de_CH-1996" "a" = some ("de", .pattern "A") ∧
      catalogs.ids "de_CH-1996" = ["a", "b"] ∧
      ∃ tag entry, catalogs.lookup? "de_CH-1996" "b" = some (tag, entry) := by
  intro catalogs
  have filled : Locale.normalize "de_CH-1996" ≠ "" := by decide +kernel
  obtain ⟨-, finds, -, known⟩ := lookup?_and_ids catalogs "de_CH-1996" filled
  have ids : catalogs.ids "de_CH-1996" = ["a", "b"] := by decide +kernel
  refine ⟨filled, (finds "a" "de" (.pattern "A")).2 ⟨["de-ch-1996", "de-ch"], [], ?_, ?_, ?_⟩, ids,
    (known "b").1 ?_⟩
  · decide +kernel
  · decide +kernel
  · decide +kernel
  · simp [ids]

end MessageFormat.Catalogs
