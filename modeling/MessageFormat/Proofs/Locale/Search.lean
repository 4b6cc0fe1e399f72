import MessageFormat.Proofs.Locale

/-!
# Searching for a locale

A search takes one request after the other and offers its tag to a test, and then what is left of it
by shortening (`Locale.Search`). Every search comes to its end, with the tags in `Locale.offered` and
the answer of `Locale.closest?`; what it offers for one request is the normalized tag and then shorter
and shorter front parts of it (`Locale.search_terminates`).
-/

namespace MessageFormat.Locale

variable {isAvailable : String → Bool} {requests : List String} {tried : List String}
  {found : Option String} {cs : List Char}

/-! ## Searches -/

/-- `Search isAvailable cs requests tried found`: with the tag `cs` in hand and `requests` still to
come, a search offers the tags `tried` and ends with `found`. An empty tag is put aside for the next
request. -/
inductive Search (isAvailable : String → Bool) :
    List Char → List String → List String → Option String → Prop where
  | done : Search isAvailable [] [] [] none
  | next {tag : String} {requests tried : List String} {found : Option String} :
      Search isAvailable (normalizeChars tag.toList) requests tried found →
      Search isAvailable [] (tag :: requests) tried found
  | accepted {cs : List Char} {requests : List String} :
      cs ≠ [] → isAvailable (String.ofList cs) = true →
      Search isAvailable cs requests [String.ofList cs] (some (String.ofList cs))
  | refused {cs : List Char} {requests tried : List String} {found : Option String} :
      cs ≠ [] → isAvailable (String.ofList cs) = false →
      Search isAvailable ((shorten? cs).getD []) requests tried found →
      Search isAvailable cs requests (String.ofList cs :: tried) found

theorem Search.unique {others : List String} {other : Option String}
    (first : Search isAvailable cs requests tried found)
    (second : Search isAvailable cs requests others other) : others = tried ∧ other = found := by
  induction first generalizing others other with
  | done =>
    cases second with
    | done => exact ⟨rfl, rfl⟩
    | accepted filled _ | refused filled _ _ => exact absurd rfl filled
  | next _ ih =>
    cases second with
    | next later => exact ih later
    | accepted filled _ | refused filled _ _ => exact absurd rfl filled
  | accepted filled here =>
    cases second with
    | done | next _ => exact absurd rfl filled
    | accepted _ _ => exact ⟨rfl, rfl⟩
    | refused _ missing _ => simp [here] at missing
  | refused filled missing _ ih =>
    cases second with
    | done | next _ => exact absurd rfl filled
    | accepted _ here => simp [here] at missing
    | refused _ _ later =>
      obtain ⟨rfl, rfl⟩ := ih later
      exact ⟨rfl, rfl⟩

/-! ## How a search ends -/

/-- The tags of a list that are offered until one is accepted. -/
def visited (isAvailable : String → Bool) (tags : List String) : List String :=
  tags.takeWhile (!isAvailable ·) ++ (tags.find? isAvailable).toList

theorem visited_cons (tag : String) (tags : List String) :
    visited isAvailable (tag :: tags) =
      if isAvailable tag then [tag] else tag :: visited isAvailable tags := by
  cases here : isAvailable tag <;> simp [visited, here]

/-- The step of a search: its tag is offered before those to which the search goes on. -/
theorem search_cons {tags : List String} (filled : cs ≠ [])
    (later : Search isAvailable ((shorten? cs).getD []) requests (visited isAvailable tags)
      (tags.find? isAvailable)) :
    Search isAvailable cs requests (visited isAvailable (String.ofList cs :: tags))
      ((String.ofList cs :: tags).find? isAvailable) := by
  cases here : isAvailable (String.ofList cs) with
  | true => simpa [visited_cons, here] using Search.accepted filled here
  | false => simpa [visited_cons, here] using Search.refused filled here later

/-- As many steps as a tag has characters are enough to shorten it to the end. -/
theorem search_chainFrom {count : Nat} {tags : List String} (enough : cs.length ≤ count)
    (later : Search isAvailable [] requests (visited isAvailable tags) (tags.find? isAvailable)) :
    Search isAvailable cs requests
      (visited isAvailable ((chainFrom count cs).map String.ofList ++ tags))
      (((chainFrom count cs).map String.ofList ++ tags).find? isAvailable) := by
  fun_induction chainFrom count cs with
  | case1 cs =>
    obtain rfl : cs = [] := List.eq_nil_of_length_eq_zero (Nat.le_zero.1 enough)
    exact later
  | case2 count cs empty =>
    obtain rfl : cs = [] := List.isEmpty_iff.1 empty
    exact later
  | case3 count cs filled shorter found ih =>
    have less := length_lt_of_shorten? found
    apply search_cons (by simpa using filled)
    rw [found, Option.getD_some]
    exact ih (by omega)
  | case4 count cs filled done =>
    apply search_cons (by simpa using filled)
    rw [done, Option.getD_none]
    exact later

theorem search_candidates (isAvailable : String → Bool) (requests : List String) :
    Search isAvailable [] requests (offered requests isAvailable)
      (closest? requests isAvailable) := by
  change Search isAvailable [] requests (visited isAvailable (candidates requests))
    ((candidates requests).find? isAvailable)
  induction requests with
  | nil => exact .done
  | cons tag rest ih =>
    rw [candidates, List.flatMap_cons]
    exact .next (search_chainFrom le_rfl ih)

/-! ## What a request offers -/

/-- A tag, unless it is empty, and behind it shorter and shorter front parts of it, each of which
ends where a hyphen follows. -/
structure IsFallback (tag : String) (tags : List String) : Prop where
  head : tags.head? = if tag = "" then none else some tag
  filled : "" ∉ tags
  cut : tags.Pairwise fun longer shorter => ∃ rest, longer = shorter ++ "-" ++ rest

theorem isFallback_chain (tag : String) : IsFallback (normalize tag) (chain tag) where
  head := by
    rw [chain, List.head?_map, normalize]
    by_cases empty : normalizeChars tag.toList = []
    · rw [empty]
      rfl
    · obtain ⟨later, split⟩ := exists_chainFrom_cons empty le_rfl
      rw [split, if_neg (by simpa using empty)]
      rfl
  filled := by
    rw [chain, List.mem_map]
    rintro ⟨cs, inside, empty⟩
    exact ne_nil_of_mem_chainFrom inside (by simpa using empty)
  cut := by
    rw [chain, List.pairwise_map]
    refine (pairwise_chainFrom _ _).imp fun {longer shorter} cut => ?_
    obtain ⟨rest, rfl⟩ := cut
    exact ⟨String.ofList rest, by simp [String.append_assoc]⟩

theorem chain_eq_of_normalize_eq {tag other : String} (same : normalize tag = normalize other) :
    chain tag = chain other := by
  have chars : normalizeChars tag.toList = normalizeChars other.toList :=
    String.ofList_injective same
  rw [chain, chain, chars]

theorem candidates_eq_of_normalize_eq {others : List String}
    (same : requests.map normalize = others.map normalize) :
    candidates requests = candidates others := by
  induction requests generalizing others with
  | nil =>
    cases others with
    | nil => rfl
    | cons other rest => cases same
  | cons tag rest ih =>
    cases others with
    | nil => cases same
    | cons other rest' =>
      obtain ⟨head, tail⟩ := List.cons_eq_cons.1 same
      have later : rest.flatMap chain = rest'.flatMap chain := ih tail
      rw [candidates, candidates, List.flatMap_cons, List.flatMap_cons, later,
        chain_eq_of_normalize_eq head]

/-! ## The answer -/

theorem closest?_eq_some_iff {tag : String} : closest? requests isAvailable = some tag ↔
    ∃ before behind, candidates requests = before ++ tag :: behind ∧
      offered requests isAvailable = before ++ [tag] ∧ isAvailable tag = true ∧
      ∀ earlier ∈ before, isAvailable earlier = false := by
  constructor
  · intro h
    have taken : offered requests isAvailable =
        (candidates requests).takeWhile (!isAvailable ·) ++ [tag] := by
      rw [offered, h, Option.toList_some]
    obtain ⟨here, before, behind, split, missing⟩ := List.find?_eq_some_iff_append.1 h
    refine ⟨before, behind, split, ?_, here, by simpa using missing⟩
    rw [taken, split, List.takeWhile_append_of_pos missing]
    simp [here]
  · rintro ⟨before, behind, split, -, here, missing⟩
    exact List.find?_eq_some_iff_append.2 ⟨here, before, behind, split, by simpa using missing⟩

theorem closest?_eq_none_iff : closest? requests isAvailable = none ↔
    ∀ tag ∈ requests, ∀ candidate ∈ chain tag, isAvailable candidate = false := by
  rw [closest?, List.find?_eq_none, candidates]
  simp only [List.mem_flatMap, Bool.not_eq_true]
  constructor
  · intro refused tag asked candidate inside
    exact refused candidate ⟨tag, asked, inside⟩
  · rintro refused candidate ⟨tag, asked, inside⟩
    exact refused tag asked candidate inside

theorem offered_of_closest?_eq_none (h : closest? requests isAvailable = none) :
    offered requests isAvailable = candidates requests := by
  rw [offered, h, Option.toList_none, List.append_nil, List.takeWhile_eq_self_iff]
  simpa [closest?, List.find?_eq_none] using h

/-- Every search ends, with one answer. For each request in its turn it offers the normalized tag and
front parts of it, up to the first that is accepted, which is its answer; without one, all have been
refused. So requests that are normalized alike are answered alike. -/
theorem search_terminates (requests : List String) (isAvailable : String → Bool) :
    (∀ tried found, Search isAvailable [] requests tried found ↔
      tried = offered requests isAvailable ∧ found = closest? requests isAvailable) ∧
    (∀ tag ∈ requests, IsFallback (normalize tag) (chain tag)) ∧
    (∀ tag, closest? requests isAvailable = some tag ↔
      ∃ before behind, requests.flatMap chain = before ++ tag :: behind ∧
        offered requests isAvailable = before ++ [tag] ∧ isAvailable tag = true ∧
        ∀ earlier ∈ before, isAvailable earlier = false) ∧
    (closest? requests isAvailable = none ↔
      ∀ tag ∈ requests, ∀ candidate ∈ chain tag, isAvailable candidate = false) ∧
    (closest? requests isAvailable = none →
      offered requests isAvailable = requests.flatMap chain) ∧
    ∀ others : List String, others.map normalize = requests.map normalize →
      offered others isAvailable = offered requests isAvailable ∧
        closest? others isAvailable = closest? requests isAvailable := by
  have search := search_candidates isAvailable requests
  refine ⟨fun tried found => ⟨search.unique, ?_⟩, fun tag _ => isFallback_chain tag,
    fun _ => closest?_eq_some_iff, closest?_eq_none_iff, offered_of_closest?_eq_none, ?_⟩
  · rintro ⟨rfl, rfl⟩
    exact search
  · intro others same
    have alike := candidates_eq_of_normalize_eq same
    rw [offered, offered, closest?, closest?, alike]
    exact ⟨rfl, rfl⟩

theorem search_terminates_swiss :
    let requests := [" ", "de_CH-x-old", "fr"]
    let others := ["", "DE-ch-X-OLD", " fr"]
    Search (· == "de") [] requests ["de-ch-x-old", "de-ch", "de"] (some "de") ∧
      IsFallback (normalize "de_CH-x-old") ["de-ch-x-old", "de-ch", "de"] ∧
      closest? requests (fun _ => false) = none ∧
      offered requests (fun _ => false) = ["de-ch-x-old", "de-ch", "de", "fr"] ∧
      others.map normalize = requests.map normalize ∧ closest? others (· == "de") = some "de" := by
  intro requests others
  obtain ⟨searches, fallback, -, -, -, alike⟩ := search_terminates requests (· == "de")
  have found : closest? requests (· == "de") = some "de" := by decide +kernel
  have same : others.map normalize = requests.map normalize := by decide +kernel
  have refused : closest? requests (fun _ => false) = none := by decide +kernel
  have chain : chain "de_CH-x-old" = ["de-ch-x-old", "de-ch", "de"] := by decide +kernel
  refine ⟨(searches _ _).2 ⟨by decide +kernel, found.symm⟩, chain ▸ fallback _ (by simp [requests]),
    refused, ?_, same, (alike others same).2.trans found⟩
  rw [(search_terminates requests fun _ => false).2.2.2.2.1 refused]
  decide +kernel

end MessageFormat.Locale
