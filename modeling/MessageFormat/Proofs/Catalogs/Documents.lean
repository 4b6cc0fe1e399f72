import MessageFormat.Catalogs.Document
import MessageFormat.Proofs.Catalogs.Edits

/-!
# Catalogs that are written and read

All locales of catalogs that edits and readings lead to are normalized (`Catalogs.Reachable.normal`).
So what is read from their document are the same catalogs, and of written locales that normalize to
one tag the last that has an id gives its entry (`Catalogs.read_written`).
-/

namespace MessageFormat

/-! ## Documents -/

theorem CatalogEntry.ofDocument?_document (entry : CatalogEntry) :
    ofDocument? entry.document = some entry := by
  match entry with
  | .pattern _ => rfl
  | .record _ none => rfl
  | .record _ (some _) => rfl

theorem SortedMap.ofDocument?_document {α : Type} {write : α → Document}
    {read : Document → Option α} (reads : ∀ a, read (write a) = some a) (map : SortedMap α) :
    ofDocument? read (map.document write) = some map := by
  have members (entries : List (String × α)) :
      (entries.map fun entry => (entry.1, write entry.2)).mapM
        (fun member => (read member.2).map (member.1, ·)) = some entries := by
    induction entries with
    | nil => rfl
    | cons entry rest ih =>
      rw [List.map_cons, List.mapM_cons, ih, reads]
      rfl
  rw [document, ofDocument?, members, Option.map_some, ofList_entries]

namespace Catalogs

variable {catalogs : Catalogs} {tag id : String} {entry : CatalogEntry}

theorem ofDocument?_document_written (written : SortedMap Catalog) :
    ofDocument? (written.document (SortedMap.document CatalogEntry.document)) =
      some (ofWritten written) := by
  rw [ofDocument?, SortedMap.ofDocument?_document
    (SortedMap.ofDocument?_document CatalogEntry.ofDocument?_document), Option.map_some]

/-! ## Merging what is written -/

/-- What a written locale has for an id, if it normalizes to the tag. -/
def writtenAt (tag id : String) (locale : String × Catalog) : Option CatalogEntry :=
  if Locale.normalize locale.1 = tag then locale.2.get? id else none

theorem get?_catalog_extend_entries (catalogs : Catalogs) (locale : String × Catalog)
    (tag id : String) : ((catalogs.extend locale.1 locale.2.entries).catalog tag).get? id =
      (writtenAt tag id locale).or ((catalogs.catalog tag).get? id) := by
  rw [catalog_extend, writtenAt]
  by_cases same : Locale.normalize locale.1 = tag
  · rw [if_pos same, if_pos same.symm, SortedMap.get?_insertAll locale.2.nodup_keys]
    rfl
  · rw [if_neg same, if_neg (Ne.symm same), Option.none_or]

theorem get?_catalog_foldl_extend (written : List (String × Catalog)) (start : Catalogs)
    (tag id : String) :
    ((written.foldl (fun catalogs locale => catalogs.extend locale.1 locale.2.entries)
      start).catalog tag).get? id =
        (written.reverse.findSome? (writtenAt tag id)).or ((start.catalog tag).get? id) := by
  induction written generalizing start with
  | nil => rfl
  | cons locale rest ih =>
    rw [List.foldl_cons, ih, get?_catalog_extend_entries, List.reverse_cons, List.findSome?_append,
      List.findSome?_singleton, Option.or_assoc]

theorem get?_catalog_ofWritten (written : SortedMap Catalog) (tag id : String) :
    ((ofWritten written).catalog tag).get? id =
      written.entries.reverse.findSome? (writtenAt tag id) :=
  (get?_catalog_foldl_extend written.entries empty tag id).trans (Option.or_none ..)

theorem ofWritten_eq_ofWrites (written : SortedMap Catalog) :
    ofWritten written =
      ofWrites (written.entries.map fun locale => (locale.1, locale.2.entries)) := by
  rw [ofWritten, ofWrites, List.foldl_map]

theorem mem_locales_ofWritten {written : SortedMap Catalog} :
    tag ∈ (ofWritten written).locales ↔ ∃ locale ∈ written.keys, tag = Locale.normalize locale := by
  rw [ofWritten_eq_ofWrites, mem_locales_ofWrites, SortedMap.keys]
  simp

/-! ## Reachable catalogs -/

/-- Catalogs that some edits and readings lead to. -/
inductive Reachable : Catalogs → Prop where
  | empty : Reachable empty
  | insert {catalogs : Catalogs} (locale id : String) (entry : CatalogEntry) :
      Reachable catalogs → Reachable (catalogs.insert locale id entry)
  | extend {catalogs : Catalogs} (locale : String) (entries : List (String × CatalogEntry)) :
      Reachable catalogs → Reachable (catalogs.extend locale entries)
  | read {catalogs : Catalogs} {document : Document} :
      ofDocument? document = some catalogs → Reachable catalogs

theorem Reachable.normal (h : Reachable catalogs) :
    ∀ tag ∈ catalogs.locales, Locale.normalize tag = tag := by
  induction h with
  | empty => exact fun tag inside => absurd inside List.not_mem_nil
  | insert locale id entry _ ih | extend locale entries _ ih =>
    intro tag inside
    rcases mem_locales_extend.1 inside with rfl | old
    · exact Locale.normalize_normalize locale
    · exact ih tag old
  | read reads =>
    obtain ⟨written, -, rfl⟩ := Option.map_eq_some_iff.1 reads
    intro tag inside
    obtain ⟨locale, -, rfl⟩ := mem_locales_ofWritten.1 inside
    exact Locale.normalize_normalize locale

/-! ## Reading what is written -/

theorem get?_catalog_eq_some_iff : (catalogs.catalog tag).get? id = some entry ↔
    ∃ found, catalogs.byLocale.get? tag = some found ∧ found.get? id = some entry := by
  rw [catalog]
  cases catalogs.byLocale.get? tag <;> simp

/-- Catalogs are given by their locales and the entries of these. -/
theorem ext_catalog {other : Catalogs}
    (locales : ∀ tag, tag ∈ catalogs.locales ↔ tag ∈ other.locales)
    (entries : ∀ tag id, (catalogs.catalog tag).get? id = (other.catalog tag).get? id) :
    catalogs = other := by
  refine ext_byLocale fun tag => ?_
  have known := locales tag
  have same : catalogs.catalog tag = other.catalog tag := SortedMap.ext_get? (entries tag)
  rw [Catalogs.locales, Catalogs.locales, SortedMap.mem_keys_iff, SortedMap.mem_keys_iff] at known
  rw [catalog, catalog] at same
  cases here : catalogs.byLocale.get? tag with
  | none =>
    cases there : other.byLocale.get? tag with
    | none => rfl
    | some found => simp [here, there] at known
  | some found =>
    cases there : other.byLocale.get? tag with
    | none => simp [here, there] at known
    | some found' => simpa [here, there] using same

theorem writtenAt_eq_some_iff {locale : String × Catalog} : writtenAt tag id locale = some entry ↔
    Locale.normalize locale.1 = tag ∧ locale.2.get? id = some entry := by
  rw [writtenAt, Option.ite_none_right_eq_some]

theorem writtenAt_eq_none_iff {locale : String × Catalog} : writtenAt tag id locale = none ↔
    (Locale.normalize locale.1 = tag → locale.2.get? id = none) := by
  rw [writtenAt]
  split_ifs with same <;> simp [same]

/-- If several written locales normalize to one tag, the last that has the id gives its entry. -/
theorem get?_catalog_ofWritten_eq_some_iff {written : SortedMap Catalog} :
    ((ofWritten written).catalog tag).get? id = some entry ↔
      ∃ locale found, written.get? locale = some found ∧ Locale.normalize locale = tag ∧
        found.get? id = some entry ∧ ∀ later other, written.get? later = some other →
          locale < later → Locale.normalize later = tag → other.get? id = none := by
  rw [get?_catalog_ofWritten, SortedMap.findSome?_reverse_entries_eq_some_iff]
  simp only [writtenAt_eq_some_iff, writtenAt_eq_none_iff, and_assoc]

/-- Merging locales that are normalized already merges nothing. -/
theorem ofWritten_written (normal : ∀ tag ∈ catalogs.locales, Locale.normalize tag = tag) :
    ofWritten catalogs.written = catalogs := by
  have self {locale : String} {found : Catalog} (h : catalogs.written.get? locale = some found) :
      Locale.normalize locale = locale :=
    normal locale (SortedMap.mem_keys_iff.2 (Option.isSome_of_eq_some h))
  refine ext_catalog (fun tag => ?_) fun tag id => Option.ext fun entry => ?_
  · rw [mem_locales_ofWritten]
    constructor
    · rintro ⟨locale, inside, rfl⟩
      rwa [normal locale inside]
    · exact fun inside => ⟨tag, inside, (normal tag inside).symm⟩
  · rw [get?_catalog_ofWritten_eq_some_iff, get?_catalog_eq_some_iff]
    constructor
    · rintro ⟨locale, found, here, rfl, has, -⟩
      rw [self here]
      exact ⟨found, here, has⟩
    · rintro ⟨found, here, has⟩
      refine ⟨tag, found, here, self here, has, fun later other there less same => ?_⟩
      rw [self there] at same
      exact absurd same (String.ne_of_lt less).symm

/-- Reachable catalogs are what is read from their document, to the last entry and locale. What is
read from written locales has, for an id, the entry of the last locale, by code points, that
normalizes to the one that is asked for and has the id. -/
theorem read_written :
    (∀ catalogs : Catalogs, catalogs.Reachable →
      ofDocument? catalogs.document = some catalogs) ∧
    ∀ written : SortedMap Catalog,
      ofDocument? (written.document (SortedMap.document CatalogEntry.document)) =
          some (ofWritten written) ∧
        ∀ locale id entry, (ofWritten written).get? locale id = some entry ↔
          ∃ key found, written.get? key = some found ∧
            Locale.normalize key = Locale.normalize locale ∧ found.get? id = some entry ∧
            ∀ later other, written.get? later = some other → key < later →
              Locale.normalize later = Locale.normalize locale → other.get? id = none := by
  refine ⟨fun catalogs reachable => ?_, fun written => ⟨ofDocument?_document_written written,
    fun locale id entry => get?_catalog_ofWritten_eq_some_iff⟩⟩
  rw [document, ofDocument?_document_written, ofWritten_written reachable.normal]

theorem read_written_colliding :
    let catalogs := (empty.insert "pt_BR" "hi" (.record "Oi" (some "greeting"))).extend " DE" []
    let written : SortedMap Catalog := .ofList [("pt_BR", .ofList [("a", .pattern "A")]),
      ("PT-br", .ofList [("a", .pattern "a"), ("b", .record "b" none)]), ("pt", .empty)]
    catalogs.Reachable ∧ catalogs.locales = ["de", "pt-br"] ∧
      ofDocument? catalogs.document = some catalogs ∧
      ofDocument? (written.document (SortedMap.document CatalogEntry.document)) =
        some (ofWritten written) ∧
      (ofWritten written).get? "Pt_bR" "a" = some (.pattern "A") ∧
      ∃ key found, written.get? key = some found ∧ Locale.normalize key = "pt-br" ∧
        found.get? "b" = some (.record "b" none) := by
  intro catalogs written
  have reachable : catalogs.Reachable := .extend " DE" [] (.insert "pt_BR" "hi" _ .empty)
  obtain ⟨reads, merged⟩ := read_written.2 written
  have found : (ofWritten written).get? "pt-br" "b" = some (.record "b" none) := by decide +kernel
  obtain ⟨key, catalog, here, same, has, -⟩ := (merged "pt-br" "b" (.record "b" none)).1 found
  exact ⟨reachable, by decide +kernel, read_written.1 catalogs reachable, reads, by decide +kernel,
    key, catalog, here, same, has⟩

end Catalogs

end MessageFormat
