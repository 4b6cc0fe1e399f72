import MessageFormat.Proofs.Catalogs.Lookup
import MessageFormat.Proofs.Formatter.Requests
import MessageFormat.Proofs.Suggestion.Ranking

/-!
# Missing messages

There is no pattern for an id that no candidate of the locale has, if that is to fail
(`Formatter.resolvePattern_eq_error_iff`). The error lists the known ids that are closest to the
missing one (`Formatter.suggestions_of_missing`).
-/

namespace MessageFormat.Formatter

variable {formatter : Formatter} {cache : Cache} {request : Request} {call : Call}
  {locale pattern id : String} {suggestions : List String}

theorem resolvePattern_eq_error_iff {error : FormatError} :
    (formatter.resolvePattern locale pattern id).1 = .error error ↔
      formatter.catalogs.isEmpty = false ∧ formatter.lookup? id locale = none ∧
        formatter.missing = .fail ∧ error = .missingMessage locale id
          (Suggestion.suggestions id (formatter.catalogs.ids locale)) := by
  rw [resolvePattern]
  cases empty : formatter.catalogs.isEmpty with
  | true => simp
  | false =>
    cases found : formatter.lookup? id locale with
    | some entry => simp
    | none => cases policy : formatter.missing <;> simp [eq_comm]

/-! ## The error for a missing message -/

theorem eq_error_of_map {ε α β : Type} {f : α → β} {result : Except ε α} {error : ε}
    (h : result.map f = .error error) : result = .error error := by
  cases result with
  | ok value => cases h
  | error _ =>
    cases h
    rfl

theorem resolveCall_eq_missing_iff :
    (formatter.resolveCall cache call).result = .error (.missingMessage locale id suggestions) ↔
      (formatter.resolvePattern call.locale call.pattern call.id).1 =
        .error (.missingMessage locale id suggestions) := by
  rw [resolveCall, resolve]
  rcases formatter.resolvePattern call.locale call.pattern call.id with ⟨error | pattern, log⟩
  · rw [Except.error.injEq, Except.error.injEq]
  · -- A pattern that was found can only be malformed.
    dsimp only
    cases (cache.fetch ⟨call.locale, call.output, pattern⟩ fun _ =>
      formatter.prepare call.locale pattern).result <;> simp [Except.mapError]

theorem exists_resolvePattern_of_serve_missing (failed : (formatter.serve cache request).result =
    .error (.missingMessage locale id suggestions)) :
    ∃ wanted pattern key, (formatter.resolvePattern wanted pattern key).1 =
      .error (.missingMessage locale id suggestions) := by
  cases called : formatter.call? request with
  | some call =>
    obtain ⟨answer, serves⟩ := exists_serve_of_call? called
    rw [(serves cache).1] at failed
    exact ⟨_, _, _, resolveCall_eq_missing_iff.1 (eq_error_of_map failed)⟩
  | none =>
    cases request with
    | patternOf descriptor wanted => exact ⟨_, _, _, eq_error_of_map failed⟩
    | setLocale | editCatalogs | clearCache => cases failed
    | _ => cases called

theorem eq_suggestions_of_serve_missing (failed : (formatter.serve cache request).result =
    .error (.missingMessage locale id suggestions)) :
    formatter.missing = .fail ∧ formatter.lookup? id locale = none ∧
      suggestions = Suggestion.suggestions id (formatter.catalogs.ids locale) := by
  obtain ⟨_, _, _, missing⟩ := exists_resolvePattern_of_serve_missing failed
  obtain ⟨-, absent, policy, equal⟩ := resolvePattern_eq_error_iff.1 missing
  cases equal
  exact ⟨policy, absent, rfl⟩

theorem mem_ids_iff : id ∈ formatter.catalogs.ids locale ↔
    (formatter.lookup? id locale).isSome = true := by
  rw [lookup?, Option.isSome_map, Catalogs.mem_ids_iff]

/-- A request that fails for a missing message suggests the ids that are closest to the missing one,
at most three and in order. All of them are near it and found by a look-up for the locale, and an id
of which this is true comes after them if it is left out. Requests that miss the same id where
look-ups find the same ids suggest the same. -/
theorem suggestions_of_missing (formatter : Formatter) (cache : Cache) (request : Request)
    (locale id : String) (suggestions : List String)
    (failed : (formatter.serve cache request).result =
      .error (.missingMessage locale id suggestions)) :
    let found (x : String) : Prop := (formatter.lookup? x locale).isSome = true
    let near (x : String) : Prop :=
      x ≠ id ∧ Suggestion.editDistance id x ≤ if id.length ≤ 3 then 1 else 2
    formatter.missing = .fail ∧ ¬ found id ∧
    suggestions.length ≤ 3 ∧ suggestions.Nodup ∧ suggestions.Pairwise (Suggestion.Closer id) ∧
    (∀ x ∈ suggestions, found x ∧ near x) ∧
    (∀ x, found x → near x → x ∉ suggestions →
      suggestions.length = 3 ∧ ∀ s ∈ suggestions, Suggestion.Closer id s x) ∧
    (∀ (other : Formatter) (kept : Cache) (asked : Request) (l : String) (others : List String),
      (other.serve kept asked).result = .error (.missingMessage l id others) →
      (∀ x, (other.lookup? x l).isSome = true ↔ found x) → others = suggestions) ∧
    ∀ x, IsLeast {n | Suggestion.Edits n id.toList x.toList} (Suggestion.editDistance id x) := by
  intro found near
  obtain ⟨policy, absent, rfl⟩ := eq_suggestions_of_serve_missing failed
  have nodup := formatter.catalogs.nodup_ids locale
  have sorted : (Suggestion.suggestions id (formatter.catalogs.ids locale)).Pairwise
      (Suggestion.Closer id) := Suggestion.pairwise_suggestions nodup
  have known (x : String) : x ∈ formatter.catalogs.ids locale ↔ found x := mem_ids_iff
  refine ⟨policy, by simp [found, absent], Suggestion.length_suggestions_le _ _,
    sorted.imp Suggestion.Closer.ne, sorted, fun x listed => ?_, fun x here close left => ?_,
    fun other kept asked l others failed' same => ?_, Suggestion.isLeast_editDistance id⟩
  · obtain ⟨here, close⟩ := Suggestion.mem_of_mem_suggestions listed
    exact ⟨(known x).1 here, close⟩
  · exact (Suggestion.suggested_or_later nodup ((known x).2 here) close.1 close.2).resolve_left left
  · obtain ⟨-, -, rfl⟩ := eq_suggestions_of_serve_missing failed'
    rw [Catalogs.ids_eq_of_isSome_lookup?]
    intro x
    rw [Bool.eq_iff_iff, ← Catalogs.mem_ids_iff, ← Catalogs.mem_ids_iff, mem_ids_iff, same, known]

theorem suggestions_of_missing_menu :
    let catalogs := ["menus", "mend", "mean", "file"].foldl
      (fun catalogs id => catalogs.insert "de" id (.pattern id))
      (Catalogs.empty.extend "de-AT" [("men", .pattern ""), ("mend", .pattern "")])
    let formatter : Formatter := { scheme := .literal, missing := .fail, catalogs }
    let request : Request := .formatIn "de_at" "menu" []
    let suggestions := ["men", "mend", "menus"]
    (formatter.serve {} request).result = .error (.missingMessage "de_at" "menu" suggestions) ∧
      (∀ s ∈ suggestions, (formatter.lookup? s "de_at").isSome = true) ∧
      ∀ x, (formatter.lookup? x "de_at").isSome = true → x ≠ "menu" →
        Suggestion.editDistance "menu" x ≤ 2 → x ∉ suggestions →
        ∀ s ∈ suggestions, Suggestion.Closer "menu" s x := by
  intro catalogs formatter request suggestions
  have known : catalogs.ids "de_at" = ["file", "mean", "men", "mend", "menus"] := by decide +kernel
  have closest : Suggestion.suggestions "menu" ["file", "mean", "men", "mend", "menus"] =
      suggestions := by cbv
  have missing : (formatter.resolveCall {} ⟨"de_at", .text, "menu", "menu"⟩).result =
      .error (.missingMessage "de_at" "menu" suggestions) := by
    rw [resolveCall_eq_missing_iff, ← closest, ← known]
    exact resolvePattern_eq_error_iff.2 ⟨by decide +kernel, by decide +kernel, rfl, rfl⟩
  have failed : (formatter.serve {} request).result =
      .error (.missingMessage "de_at" "menu" suggestions) :=
    congrArg (fun result => (result.map (Prepared.text · [])).map Answer.text) missing
  obtain ⟨-, -, -, -, -, listed, left, -⟩ :=
    suggestions_of_missing formatter {} request "de_at" "menu" suggestions failed
  exact ⟨failed, fun s hs => (listed s hs).1, fun x found other close unlisted =>
    (left x found ⟨other, close⟩ unlisted).2⟩

end MessageFormat.Formatter
