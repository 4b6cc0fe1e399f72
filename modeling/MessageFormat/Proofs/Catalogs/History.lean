import MessageFormat.Proofs.Catalogs.Documents
import MessageFormat.Proofs.Formatter.Missing

/-!
# Catalogs and what has been written into them

Edits lead to the reachable catalogs (`Catalogs.reachable_iff_built?`), which are made of the writes
since a document was read last (`Catalogs.eq_ofWrites_of_built?`). A write makes its locale known, even
if it has no entries. So catalogs may list a locale without any, or count as filled without any, and
then a formatter asks its policy for every pattern. `Catalogs.listsFilled_iff` says for which histories
this is so.
-/

namespace MessageFormat.Catalogs

variable {catalogs : Catalogs} {locale id : String}
  {writes : List (String × List (String × CatalogEntry))}

/-! ## Histories -/

/-- What changes catalogs. A document that is read takes the place of all there was. -/
inductive Edit where
  | insert (locale id : String) (entry : CatalogEntry)
  | extend (locale : String) (entries : List (String × CatalogEntry))
  | read (document : Document)

def edit? (catalogs : Catalogs) : Edit → Option Catalogs
  | .insert locale id entry => some (catalogs.insert locale id entry)
  | .extend locale entries => some (catalogs.extend locale entries)
  | .read document => ofDocument? document

/-- The catalogs to which edits lead, unless one of them is a document that cannot be read. -/
def built? (edits : List Edit) : Option Catalogs :=
  edits.foldlM edit? empty

/-- The locales in a document and their entries. -/
def documentWrites (document : Document) : List (String × List (String × CatalogEntry)) :=
  match SortedMap.ofDocument? (SortedMap.ofDocument? CatalogEntry.ofDocument?) document with
  | some written => written.entries.map fun locale => (locale.1, locale.2.entries)
  | none => []

def writesAfter (writes : List (String × List (String × CatalogEntry))) :
    Edit → List (String × List (String × CatalogEntry))
  | .insert locale id entry => writes ++ [(locale, [(id, entry)])]
  | .extend locale entries => writes ++ [(locale, entries)]
  | .read document => documentWrites document

/-- What edits have written since they last read a document, and what is in that. -/
def writesOf (edits : List Edit) : List (String × List (String × CatalogEntry)) :=
  edits.foldl writesAfter []

theorem eq_ofWrites_of_edit? {edit : Edit} (h : (ofWrites writes).edit? edit = some catalogs) :
    catalogs = ofWrites (writesAfter writes edit) := by
  cases edit with
  | insert locale id entry | extend locale entries =>
    obtain rfl := Option.some.inj h
    exact (ofWrites_append_singleton ..).symm
  | read document =>
    obtain ⟨written, reads, rfl⟩ := Option.map_eq_some_iff.1 h
    rw [writesAfter, documentWrites, reads, ofWritten_eq_ofWrites]

theorem built?_append_singleton (edits : List Edit) (edit : Edit) :
    built? (edits ++ [edit]) = (built? edits).bind (·.edit? edit) := by
  simp [built?]

theorem writesOf_append_singleton (edits : List Edit) (edit : Edit) :
    writesOf (edits ++ [edit]) = writesAfter (writesOf edits) edit := by
  simp [writesOf]

theorem eq_ofWrites_of_built? {edits : List Edit} (h : built? edits = some catalogs) :
    catalogs = ofWrites (writesOf edits) := by
  induction edits using List.reverseRecOn generalizing catalogs with
  | nil => exact (Option.some.inj h).symm
  | append_singleton edits edit ih =>
    rw [built?_append_singleton] at h
    obtain ⟨before, first, step⟩ := Option.bind_eq_some_iff.1 h
    obtain rfl := ih first
    rw [writesOf_append_singleton]
    exact eq_ofWrites_of_edit? step

/-- Histories lead to the reachable catalogs and to no others. -/
theorem reachable_iff_built? : catalogs.Reachable ↔ ∃ edits, built? edits = some catalogs := by
  constructor
  · intro reachable
    induction reachable with
    | empty => exact ⟨[], rfl⟩
    | insert locale id entry _ ih =>
      obtain ⟨edits, built⟩ := ih
      exact ⟨edits ++ [.insert locale id entry], by simp [built?_append_singleton, built, edit?]⟩
    | extend locale entries _ ih =>
      obtain ⟨edits, built⟩ := ih
      exact ⟨edits ++ [.extend locale entries], by simp [built?_append_singleton, built, edit?]⟩
    | @read catalogs document reads => exact ⟨[.read document], by simp [built?, edit?, reads]⟩
  · rintro ⟨edits, built⟩
    induction edits using List.reverseRecOn generalizing catalogs with
    | nil =>
      obtain rfl := Option.some.inj built
      exact .empty
    | append_singleton edits edit ih =>
      rw [built?_append_singleton] at built
      obtain ⟨before, first, step⟩ := Option.bind_eq_some_iff.1 built
      cases edit with
      | insert locale id entry =>
        obtain rfl := Option.some.inj step
        exact .insert locale id entry (ih first)
      | extend locale entries =>
        obtain rfl := Option.some.inj step
        exact .extend locale entries (ih first)
      | read document => exact .read step

/-! ## What the writes give -/

theorem exists_get?_ofWrites_iff : (∃ entry, (ofWrites writes).get? locale id = some entry) ↔
    ∃ write ∈ writes, Locale.normalize locale = Locale.normalize write.1 ∧
      id ∈ write.2.map Prod.fst := by
  rw [get?, ← Option.isSome_iff_exists, ← SortedMap.mem_keys_iff, mem_keys_catalog_ofWrites]

theorem exists_id_iff : (∃ id entry, (ofWrites writes).get? locale id = some entry) ↔
    ∃ write ∈ writes, Locale.normalize locale = Locale.normalize write.1 ∧ write.2 ≠ [] := by
  simp only [exists_get?_ofWrites_iff]
  constructor
  · rintro ⟨id, write, inside, same, has⟩
    refine ⟨write, inside, same, ?_⟩
    rintro none
    simp [none] at has
  · rintro ⟨write, inside, same, filled⟩
    obtain ⟨first, rest, entries⟩ := List.exists_cons_of_ne_nil filled
    exact ⟨first.1, write, inside, same, by simp [entries]⟩

theorem isEmpty_ofWrites_iff : (ofWrites writes).isEmpty = true ↔ writes = [] := by
  have unlisted : (ofWrites writes).isEmpty = true ↔ (ofWrites writes).locales = [] := by
    rw [isEmpty, SortedMap.isEmpty, List.isEmpty_iff, locales, SortedMap.keys, List.map_eq_nil_iff]
  rw [unlisted, List.eq_nil_iff_forall_not_mem, List.eq_nil_iff_forall_not_mem]
  simp only [mem_locales_ofWrites]
  constructor
  · exact fun none write inside => none _ ⟨write, inside, rfl⟩
  · rintro none tag ⟨write, inside, -⟩
    exact none write inside

/-- There is no entry under any locale and id. -/
def HoldsNone (catalogs : Catalogs) : Prop :=
  ∀ locale id, catalogs.get? locale id = none

theorem holdsNone_ofWrites_iff : (ofWrites writes).HoldsNone ↔ ∀ write ∈ writes, write.2 = [] := by
  constructor
  · intro none write inside
    by_contra filled
    obtain ⟨id, entry, found⟩ := exists_id_iff.2 ⟨write, inside, rfl, filled⟩
    cases (none write.1 id).symm.trans found
  · intro bare locale id
    rw [Option.eq_none_iff_forall_ne_some]
    intro entry found
    obtain ⟨write, inside, -, filled⟩ := exists_id_iff.1 ⟨id, entry, found⟩
    exact filled (bare write inside)

theorem lookup?_eq_none_of_bare (bare : ∀ write ∈ writes, write.2 = []) (locale id : String) :
    (ofWrites writes).lookup? locale id = none := by
  rw [← Option.not_isSome_iff_eq_none, ← mem_ids_iff, ids, SortedMap.mem_keys_ofList, List.map_map]
  simp only [List.mem_map, List.mem_flatMap, mem_keys_catalog_ofWrites]
  rintro ⟨id, ⟨tag, -, write, inside, -, has⟩, -⟩
  simp [bare write inside] at has

/-! ## Formatting without entries -/

/-- Formatters that hold the catalogs take every pattern as it is, whatever their policy. -/
def LeavesPatterns (catalogs : Catalogs) : Prop :=
  ∀ formatter : Formatter, formatter.catalogs = catalogs → ∀ locale pattern id,
    formatter.resolvePattern locale pattern id = (.ok pattern, [])

theorem leavesPatterns_of_isEmpty (h : catalogs.isEmpty = true) : catalogs.LeavesPatterns := by
  rintro formatter rfl locale pattern id
  rw [Formatter.resolvePattern, if_pos h]

theorem leavesPatterns_iff_of_bare (bare : ∀ write ∈ writes, write.2 = []) :
    (ofWrites writes).LeavesPatterns ↔ writes = [] := by
  rw [← isEmpty_ofWrites_iff]
  constructor
  · intro leaves
    by_contra filled
    let formatter : Formatter := { catalogs := ofWrites writes, missing := .fail }
    have absent : formatter.lookup? "" "" = none := by
      rw [Formatter.lookup?, Option.map_eq_none_iff]
      exact lookup?_eq_none_of_bare bare "" ""
    have fails : (formatter.resolvePattern "" "" "").1 = .error _ :=
      Formatter.resolvePattern_eq_error_iff.2 ⟨Bool.eq_false_iff.2 filled, absent, rfl, rfl⟩
    rw [leaves formatter rfl "" "" ""] at fails
    cases fails
  · exact leavesPatterns_of_isEmpty

/-! ## Which histories keep locales and entries in step -/

/-- The locales that are listed are the normalized ones under which there is an entry. -/
def ListsFilled (catalogs : Catalogs) : Prop :=
  ∀ tag, tag ∈ catalogs.locales ↔
    Locale.normalize tag = tag ∧ ∃ id entry, catalogs.get? tag id = some entry

theorem listsFilled_ofWrites_iff : (ofWrites writes).ListsFilled ↔
    ∀ write ∈ writes, ∃ other ∈ writes,
      Locale.normalize write.1 = Locale.normalize other.1 ∧ other.2 ≠ [] := by
  simp only [ListsFilled, mem_locales_ofWrites, exists_id_iff]
  constructor
  · intro same write inside
    obtain ⟨-, other, there, equal, filled⟩ :=
      (same (Locale.normalize write.1)).1 ⟨write, inside, rfl⟩
    exact ⟨other, there, by rwa [Locale.normalize_normalize] at equal, filled⟩
  · intro each tag
    constructor
    · rintro ⟨write, inside, rfl⟩
      refine ⟨Locale.normalize_normalize write.1, ?_⟩
      rw [Locale.normalize_normalize]
      exact each write inside
    · rintro ⟨normal, write, inside, same, -⟩
      exact ⟨write, inside, normal.symm.trans same⟩

/-- Catalogs list the locales that have been written to and hold the ids that have been written
there. So the locales that are listed are those with an entry just if each locale that was written to
was given one. Catalogs count as empty just if they have no entry, and without any leave every pattern
as it is, just if nothing has been written or else some entry. -/
theorem listsFilled_iff (edits : List Edit) (catalogs : Catalogs)
    (built : built? edits = some catalogs) :
    (∀ tag, tag ∈ catalogs.locales ↔
      ∃ write ∈ writesOf edits, tag = Locale.normalize write.1) ∧
    (∀ locale id, (∃ entry, catalogs.get? locale id = some entry) ↔
      ∃ write ∈ writesOf edits, Locale.normalize locale = Locale.normalize write.1 ∧
        id ∈ write.2.map Prod.fst) ∧
    (catalogs.ListsFilled ↔ ∀ write ∈ writesOf edits, ∃ other ∈ writesOf edits,
      Locale.normalize write.1 = Locale.normalize other.1 ∧ other.2 ≠ []) ∧
    ((catalogs.isEmpty = true ↔ catalogs.HoldsNone) ↔
      writesOf edits = [] ∨ ∃ write ∈ writesOf edits, write.2 ≠ []) ∧
    ((catalogs.HoldsNone → catalogs.LeavesPatterns) ↔
      writesOf edits = [] ∨ ∃ write ∈ writesOf edits, write.2 ≠ []) := by
  obtain rfl := eq_ofWrites_of_built? built
  generalize writesOf edits = writes
  have given : (∃ write ∈ writes, write.2 ≠ []) ↔ ¬ ∀ write ∈ writes, write.2 = [] := by simp
  refine ⟨fun tag => mem_locales_ofWrites, fun locale id => exists_get?_ofWrites_iff,
    listsFilled_ofWrites_iff, ?_, ?_⟩
  · rw [isEmpty_ofWrites_iff, holdsNone_ofWrites_iff, given]
    constructor
    · intro same
      by_cases none : writes = []
      · exact .inl none
      · exact .inr fun bare => none (same.2 bare)
    · rintro (rfl | filled)
      · simp
      · exact ⟨fun none => by simp [none], fun bare => absurd bare filled⟩
  · rw [holdsNone_ofWrites_iff, given]
    constructor
    · intro leaves
      by_cases bare : ∀ write ∈ writes, write.2 = []
      · exact .inl ((leavesPatterns_iff_of_bare bare).1 (leaves bare))
      · exact .inr bare
    · rintro (none | filled) bare
      · exact (leavesPatterns_iff_of_bare bare).2 none
      · exact absurd bare filled

theorem not_listsFilled_of_bare :
    let edits := [Edit.read (.object [("pt", .object [])]), .extend "EN_us" []]
    let catalogs := ofWrites [("pt", []), ("EN_us", [])]
    built? edits = some catalogs ∧ catalogs.locales = ["en-us", "pt"] ∧ catalogs.isEmpty = false ∧
      ¬ catalogs.ListsFilled ∧ ¬ (catalogs.isEmpty = true ↔ catalogs.HoldsNone) ∧
      ¬ (catalogs.HoldsNone → catalogs.LeavesPatterns) := by
  intro edits catalogs
  have built : built? edits = some catalogs := by decide +kernel
  obtain ⟨-, -, listed, counts, leaves⟩ := listsFilled_iff edits catalogs built
  have writes : writesOf edits = [("pt", []), ("EN_us", [])] := by decide +kernel
  rw [writes] at listed counts leaves
  refine ⟨built, by decide +kernel, by decide +kernel, ?_, ?_, ?_⟩
  · rw [listed]
    intro each
    obtain ⟨other, there, -, filled⟩ := each ("pt", []) (by simp)
    rcases List.mem_pair.1 there with rfl | rfl <;> exact filled rfl
  · rw [counts]
    simp
  · rw [leaves]
    simp

end MessageFormat.Catalogs
