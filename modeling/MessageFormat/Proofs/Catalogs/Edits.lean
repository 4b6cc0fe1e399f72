import MessageFormat.Proofs.Catalogs.Lookup
import MessageFormat.Proofs.Locale

/-!
# Edits of catalogs

An entry that is inserted is seen under its own locale and id alone. A look-up with fallback sees it
if the locale is a candidate, unless one that is tried before has an entry (`Catalogs.insert_effect`).
Extending by several entries is inserting them one by one. Of the writes that catalogs are made of,
each makes its locale known (`Catalogs.mem_locales_ofWrites`), and its ids have entries there
(`Catalogs.mem_keys_catalog_ofWrites`).
-/

namespace MessageFormat.Catalogs

variable {catalogs : Catalogs} {locale tag id : String} {entry : CatalogEntry}
  {entries : List (String × CatalogEntry)}

/-! ## The catalog of a locale -/

theorem catalog_extend (catalogs : Catalogs) (locale : String)
    (entries : List (String × CatalogEntry)) (tag : String) :
    (catalogs.extend locale entries).catalog tag =
      if tag = Locale.normalize locale then (catalogs.catalog tag).insertAll entries
      else catalogs.catalog tag := by
  rw [catalog, extend, SortedMap.get?_insert]
  split_ifs with same
  · rw [same]
    rfl
  · rfl

theorem get?_catalog_insert (catalogs : Catalogs) (locale id : String) (entry : CatalogEntry)
    (tag i : String) : ((catalogs.insert locale id entry).catalog tag).get? i =
      if tag = Locale.normalize locale ∧ i = id then some entry
      else (catalogs.catalog tag).get? i := by
  rw [insert, catalog_extend]
  by_cases same : tag = Locale.normalize locale
  · rw [if_pos same]
    exact (SortedMap.get?_insert _ id entry i).trans (by simp [same])
  · rw [if_neg same, if_neg fun both => same both.1]

/-! ## Look-ups -/

theorem entryAt_insert (catalogs : Catalogs) (locale id : String) (entry : CatalogEntry)
    (i tag : String) : (catalogs.insert locale id entry).entryAt i tag =
      if tag = Locale.normalize locale ∧ i = id then some (tag, entry)
      else catalogs.entryAt i tag := by
  rw [entryAt, get?_catalog_insert]
  split_ifs <;> rfl

theorem findSome?_congr {α β : Type} {f g : α → Option β} {l : List α}
    (same : ∀ x ∈ l, f x = g x) : l.findSome? f = l.findSome? g := by
  induction l with
  | nil => rfl
  | cons x rest ih =>
    obtain ⟨here, later⟩ := List.forall_mem_cons.1 same
    rw [List.findSome?_cons, List.findSome?_cons, here, ih later]

theorem lookup?_insert_of_not {l i : String}
    (other : ¬ (i = id ∧ Locale.normalize locale ∈ Locale.candidates [l])) :
    (catalogs.insert locale id entry).lookup? l i = catalogs.lookup? l i := by
  rw [lookup?_eq_findSome?, lookup?_eq_findSome?]
  refine findSome?_congr fun tag inside => ?_
  rw [entryAt_insert, if_neg]
  rintro ⟨rfl, same⟩
  exact other ⟨same, inside⟩

/-- A look-up that reaches the locale of the new entry has tried the tags in front as before. -/
theorem lookup?_insert_of_candidates {l : String} {before behind : List String}
    (split : Locale.candidates [l] = before ++ Locale.normalize locale :: behind) :
    (catalogs.insert locale id entry).lookup? l id =
      (before.findSome? (catalogs.entryAt id)).or (some (Locale.normalize locale, entry)) := by
  have pairwise := Locale.pairwise_candidates l
  rw [split, List.pairwise_append] at pairwise
  have front : before.findSome? ((catalogs.insert locale id entry).entryAt id) =
      before.findSome? (catalogs.entryAt id) := by
    refine findSome?_congr fun tag inside => ?_
    rw [entryAt_insert, if_neg]
    rintro ⟨rfl, -⟩
    exact Nat.lt_irrefl _ (pairwise.2.2 _ inside _ List.mem_cons_self)
  rw [lookup?_eq_findSome?, split, List.findSome?_append, front, List.findSome?_cons,
    entryAt_insert, if_pos ⟨rfl, rfl⟩]

theorem lookup?_insert (catalogs : Catalogs) (locale id : String) (entry : CatalogEntry)
    (l i : String) : (catalogs.insert locale id entry).lookup? l i =
      if i = id ∧ Locale.normalize locale ∈ Locale.candidates [l] ∧
          ∀ found ∈ catalogs.lookup? l i,
            ¬ Locale.TriedBefore l found.1 (Locale.normalize locale)
      then some (Locale.normalize locale, entry) else catalogs.lookup? l i := by
  by_cases here : i = id ∧ Locale.normalize locale ∈ Locale.candidates [l]
  · obtain ⟨rfl, inside⟩ := here
    obtain ⟨before, behind, split⟩ := List.append_of_mem inside
    have old : catalogs.lookup? l i = (before.findSome? (catalogs.entryAt i)).or
        ((Locale.normalize locale :: behind).findSome? (catalogs.entryAt i)) := by
      rw [lookup?_eq_findSome?, split, List.findSome?_append]
    rw [lookup?_insert_of_candidates split]
    cases first : before.findSome? (catalogs.entryAt i) with
    | some found =>
      -- A tag that is tried before has an entry, so that neither look-up gets any further.
      rw [first, Option.some_or] at old
      have tried : Locale.TriedBefore l found.1 (Locale.normalize locale) :=
        (Locale.triedBefore_iff split).2 (mem_of_findSome?_entryAt first).1
      rw [if_neg fun both => both.2.2 found old tried, old, Option.some_or]
    | none =>
      have missing := List.findSome?_eq_none_iff.1 first
      rw [if_pos, Option.none_or]
      refine ⟨rfl, inside, fun found h tried => ?_⟩
      rw [lookup?_eq_findSome?] at h
      have absent := missing _ ((Locale.triedBefore_iff split).1 tried)
      rw [(mem_of_findSome?_entryAt h).2] at absent
      cases absent
  · rw [lookup?_insert_of_not here, if_neg fun both => here ⟨both.1, both.2.1⟩]

theorem get?_insert (catalogs : Catalogs) (locale id : String) (entry : CatalogEntry)
    (l i : String) : (catalogs.insert locale id entry).get? l i =
      if Locale.normalize l = Locale.normalize locale ∧ i = id then some entry
      else catalogs.get? l i :=
  get?_catalog_insert catalogs locale id entry (Locale.normalize l) i

/-! ## Several entries -/

theorem get?_byLocale_extend (catalogs : Catalogs) (locale : String)
    (entries : List (String × CatalogEntry)) (tag : String) :
    (catalogs.extend locale entries).byLocale.get? tag =
      if tag = Locale.normalize locale then some ((catalogs.catalog tag).insertAll entries)
      else catalogs.byLocale.get? tag := by
  rw [extend, SortedMap.get?_insert]
  split_ifs with same
  · rw [same]
  · rfl

theorem ext_byLocale {other : Catalogs}
    (same : ∀ tag, catalogs.byLocale.get? tag = other.byLocale.get? tag) : catalogs = other :=
  congrArg Catalogs.mk (SortedMap.ext_get? same)

/-- The first of several entries can be inserted before the others. -/
theorem extend_cons (catalogs : Catalogs) (locale : String) (head : String × CatalogEntry)
    (rest : List (String × CatalogEntry)) : catalogs.extend locale (head :: rest) =
      (catalogs.insert locale head.1 head.2).extend locale rest := by
  refine ext_byLocale fun tag => ?_
  rw [get?_byLocale_extend, get?_byLocale_extend, insert, get?_byLocale_extend, catalog_extend]
  split_ifs <;> rfl

theorem extend_nil_insert (catalogs : Catalogs) (locale id : String) (entry : CatalogEntry) :
    (catalogs.insert locale id entry).extend locale [] = catalogs.insert locale id entry := by
  refine ext_byLocale fun tag => ?_
  rw [get?_byLocale_extend, insert, catalog_extend, get?_byLocale_extend]
  split_ifs <;> rfl

theorem extend_eq_foldl_insert (catalogs : Catalogs) (locale : String)
    (filled : entries ≠ []) : catalogs.extend locale entries =
      entries.foldl (fun catalogs entry => catalogs.insert locale entry.1 entry.2) catalogs := by
  cases entries with
  | nil => exact absurd rfl filled
  | cons head rest =>
    rw [extend_cons, List.foldl_cons]
    -- Once an entry has been inserted the locale is known, also if no other follows.
    induction rest generalizing catalogs head with
    | nil => exact extend_nil_insert catalogs locale head.1 head.2
    | cons next rest ih =>
      rw [extend_cons, List.foldl_cons]
      exact ih (catalogs.insert locale head.1 head.2) next nofun

/-! ## Several locales -/

theorem mem_locales_extend : tag ∈ (catalogs.extend locale entries).locales ↔
    tag = Locale.normalize locale ∨ tag ∈ catalogs.locales :=
  SortedMap.mem_keys_insert

/-- Catalogs into which entries of some locales are written, those of one after those of another. -/
def ofWrites (writes : List (String × List (String × CatalogEntry))) : Catalogs :=
  writes.foldl (fun catalogs write => catalogs.extend write.1 write.2) empty

variable {writes : List (String × List (String × CatalogEntry))}

theorem ofWrites_append_singleton (writes : List (String × List (String × CatalogEntry)))
    (locale : String) (entries : List (String × CatalogEntry)) :
    ofWrites (writes ++ [(locale, entries)]) = (ofWrites writes).extend locale entries := by
  rw [ofWrites, List.foldl_append]
  rfl

theorem mem_locales_ofWrites :
    tag ∈ (ofWrites writes).locales ↔ ∃ write ∈ writes, tag = Locale.normalize write.1 := by
  induction writes using List.reverseRecOn with
  | nil => simp [ofWrites, locales, empty, SortedMap.empty, SortedMap.keys]
  | append_singleton writes last ih =>
    obtain ⟨locale, entries⟩ := last
    rw [ofWrites_append_singleton, mem_locales_extend, ih]
    simp [or_and_right, exists_or, or_comm]

theorem mem_keys_catalog_ofWrites : id ∈ ((ofWrites writes).catalog tag).keys ↔
    ∃ write ∈ writes, tag = Locale.normalize write.1 ∧ id ∈ write.2.map Prod.fst := by
  induction writes using List.reverseRecOn with
  | nil => simp [ofWrites, catalog, empty, SortedMap.get?, SortedMap.empty, SortedMap.keys]
  | append_singleton writes last ih =>
    obtain ⟨locale, entries⟩ := last
    rw [ofWrites_append_singleton, catalog_extend]
    by_cases same : tag = Locale.normalize locale
    · rw [if_pos same, SortedMap.mem_keys_insertAll, ih]
      simp [or_and_right, exists_or, or_comm, same]
    · rw [if_neg same, ih]
      simp [or_and_right, exists_or, same]

/-! ## What an edit changes -/

/-- An entry that is inserted is found under its id and the normalized locale, and nothing else is
found anew. A look-up with fallback finds it if that locale is a candidate, unless it already found
an entry under one that is tried before. Extending by entries is inserting them in their order; by
none, it makes the locale known and leaves the rest as it is. -/
theorem insert_effect (catalogs : Catalogs) (locale : String) :
    let tag := Locale.normalize locale
    (∀ id entry l i,
      (catalogs.insert locale id entry).get? l i =
          (if Locale.normalize l = tag ∧ i = id then some entry else catalogs.get? l i) ∧
        (catalogs.insert locale id entry).lookup? l i =
          if i = id ∧ tag ∈ Locale.candidates [l] ∧
              ∀ found ∈ catalogs.lookup? l i, ¬ Locale.TriedBefore l found.1 tag
          then some (tag, entry) else catalogs.lookup? l i) ∧
    (∀ entries, entries ≠ [] → catalogs.extend locale entries =
      entries.foldl (fun catalogs entry => catalogs.insert locale entry.1 entry.2) catalogs) ∧
    ∀ t, (catalogs.extend locale []).byLocale.get? t =
      if t = tag then some (catalogs.catalog t) else catalogs.byLocale.get? t :=
  ⟨fun id entry l i => ⟨catalogs.get?_insert locale id entry l i,
      catalogs.lookup?_insert locale id entry l i⟩,
    fun _ filled => catalogs.extend_eq_foldl_insert locale filled,
    catalogs.get?_byLocale_extend locale []⟩

theorem insert_effect_brazilian :
    let catalogs := (empty.insert "pt" "hi" (.pattern "Oi")).insert "pt_BR" "bye" (.pattern "Tchau")
    catalogs.lookup? "pt-BR-x-old" "hi" = some ("pt", .pattern "Oi") ∧
      (catalogs.insert " PT_br " "hi" (.pattern "Olá")).lookup? "pt-BR-x-old" "hi" =
        some ("pt-br", .pattern "Olá") ∧
      (catalogs.insert "PT" "bye" (.pattern "Adeus")).lookup? "pt-BR-x-old" "bye" =
        some ("pt-br", .pattern "Tchau") ∧
      (catalogs.insert "PT" "bye" (.pattern "Adeus")).get? "pt " "bye" = some (.pattern "Adeus") := by
  intro catalogs
  refine ⟨by decide +kernel, ?_, ?_, ?_⟩
  · rw [((insert_effect catalogs " PT_br ").1 "hi" (.pattern "Olá") "pt-BR-x-old" "hi").2, if_pos]
    · decide +kernel
    · decide +kernel
  · rw [((insert_effect catalogs "PT").1 "bye" (.pattern "Adeus") "pt-BR-x-old" "bye").2, if_neg]
    · decide +kernel
    · decide +kernel
  · rw [((insert_effect catalogs "PT").1 "bye" (.pattern "Adeus") "pt " "bye").1, if_pos]
    decide +kernel

end MessageFormat.Catalogs
