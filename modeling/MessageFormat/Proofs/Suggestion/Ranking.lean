import MessageFormat.Proofs.Suggestion.EditDistance

/-!
# The choice of suggestions

The suggestions for a key are the first of the known keys near it, by distance and then by code
points (`Suggestion.pairwise_suggestions`). A known key that is near and not suggested comes after
all that are, and there are as many of these as are ever given (`Suggestion.suggested_or_later`).
-/

namespace MessageFormat.Suggestion

variable {key x : String} {known : List String}

/-- Which of two candidates for a key comes first. -/
def Closer (key x y : String) : Prop :=
  editDistance key x < editDistance key y ∨ editDistance key x = editDistance key y ∧ x < y

theorem Closer.ne {y : String} (h : Closer key x y) : x ≠ y := by
  rintro rfl
  rcases h with less | ⟨-, less⟩
  · exact Nat.lt_irrefl _ less
  · exact String.lt_irrefl x less

/-! ## The order of scored candidates -/

theorem precedes_iff {a b : Nat × String} :
    precedes a b = true ↔ a.1 < b.1 ∨ a.1 = b.1 ∧ a.2 ≤ b.2 := by
  simp [precedes]

theorem precedes_trans (a b c : Nat × String) (hab : precedes a b = true)
    (hbc : precedes b c = true) : precedes a c = true := by
  rw [precedes_iff] at hab hbc ⊢
  rcases hab with first | ⟨same, first⟩
  · rcases hbc with second | ⟨same, -⟩
    · exact .inl (first.trans second)
    · exact .inl (same ▸ first)
  · rcases hbc with second | ⟨same', second⟩
    · exact .inl (same ▸ second)
    · exact .inr ⟨same.trans same', String.le_trans first second⟩

theorem precedes_total (a b : Nat × String) : (precedes a b || precedes b a) = true := by
  rw [Bool.or_eq_true, precedes_iff, precedes_iff]
  rcases Nat.lt_trichotomy a.1 b.1 with less | same | greater
  · exact .inl (.inl less)
  · rcases String.le_total a.2 b.2 with first | second
    · exact .inl (.inr ⟨same, first⟩)
    · exact .inr (.inr ⟨same.symm, second⟩)
  · exact .inr (.inl greater)

/-! ## Ranking -/

/-- All known keys near a key, in the order in which they are suggested. -/
def ranked (key : String) (known : List String) : List String :=
  (near key known).map (·.2)

theorem suggestions_eq_take (key : String) (known : List String) :
    suggestions key known = (ranked key known).take maxCount :=
  List.map_take

theorem near_perm (key : String) (known : List String) :
    (near key known).Perm ((known.map fun candidate => (editDistance key candidate, candidate)).filter
      fun entry => 0 < entry.1 && entry.1 ≤ maxDistance key) :=
  List.mergeSort_perm _ _

theorem mem_near_iff {entry : Nat × String} : entry ∈ near key known ↔
    entry.2 ∈ known ∧ entry.1 = editDistance key entry.2 ∧ 0 < entry.1 ∧
      entry.1 ≤ maxDistance key := by
  obtain ⟨n, x⟩ := entry
  rw [(near_perm key known).mem_iff, List.mem_filter, List.mem_map]
  simp only [Prod.mk.injEq, Bool.and_eq_true, decide_eq_true_eq]
  constructor
  · rintro ⟨⟨_, inside, rfl, rfl⟩, bounds⟩
    exact ⟨inside, rfl, bounds⟩
  · rintro ⟨inside, rfl, bounds⟩
    exact ⟨⟨x, inside, rfl, rfl⟩, bounds⟩

theorem mem_ranked_iff : x ∈ ranked key known ↔
    x ∈ known ∧ x ≠ key ∧ editDistance key x ≤ maxDistance key := by
  have apart : 0 < editDistance key x ↔ x ≠ key := by
    rw [Nat.pos_iff_ne_zero, ne_eq, editDistance_eq_zero_iff, ne_comm]
  rw [ranked, List.mem_map, ← apart]
  constructor
  · rintro ⟨entry, inside, rfl⟩
    obtain ⟨here, scored, bounds⟩ := mem_near_iff.1 inside
    exact ⟨here, scored ▸ bounds⟩
  · rintro ⟨here, bounds⟩
    exact ⟨(editDistance key x, x), mem_near_iff.2 ⟨here, rfl, bounds⟩, rfl⟩

theorem nodup_ranked (nodup : known.Nodup) : (ranked key known).Nodup := by
  rw [ranked, ((near_perm key known).map _).nodup_iff]
  refine nodup.sublist ?_
  have kept := (List.filter_sublist (p := fun entry : Nat × String =>
    0 < entry.1 && entry.1 ≤ maxDistance key) (l := known.map fun candidate =>
      (editDistance key candidate, candidate))).map Prod.snd
  rwa [List.map_map, show Prod.snd ∘ (fun candidate => (editDistance key candidate, candidate)) =
    id from rfl, List.map_id] at kept

theorem pairwise_ranked (nodup : known.Nodup) : (ranked key known).Pairwise (Closer key) := by
  have sorted : (near key known).Pairwise fun a b => precedes a b = true :=
    List.pairwise_mergeSort precedes_trans precedes_total _
  have distinct : (near key known).Pairwise fun a b => a.2 ≠ b.2 :=
    List.pairwise_map.1 (nodup_ranked nodup)
  rw [ranked, List.pairwise_map]
  refine (sorted.and distinct).imp_of_mem fun {a b} ha hb both => ?_
  obtain ⟨-, scored, -⟩ := mem_near_iff.1 ha
  obtain ⟨-, scored', -⟩ := mem_near_iff.1 hb
  rcases precedes_iff.1 both.1 with less | ⟨same, less⟩
  · exact .inl (scored ▸ scored' ▸ less)
  · exact .inr ⟨scored ▸ scored' ▸ same, lt_of_le_of_ne less both.2⟩

/-! ## Suggestions -/

theorem length_suggestions_le (key : String) (known : List String) :
    (suggestions key known).length ≤ maxCount := by
  rw [suggestions_eq_take]
  exact List.length_take_le _ _

theorem pairwise_suggestions (nodup : known.Nodup) :
    (suggestions key known).Pairwise (Closer key) := by
  rw [suggestions_eq_take]
  exact (pairwise_ranked nodup).sublist (List.take_sublist _ _)

theorem mem_of_mem_suggestions (h : x ∈ suggestions key known) :
    x ∈ known ∧ x ≠ key ∧ editDistance key x ≤ maxDistance key := by
  rw [suggestions_eq_take] at h
  exact mem_ranked_iff.1 (List.mem_of_mem_take h)

/-- A known key that is near is suggested, or it comes after a full list of suggestions. -/
theorem suggested_or_later (nodup : known.Nodup) (inside : x ∈ known) (other : x ≠ key)
    (close : editDistance key x ≤ maxDistance key) : x ∈ suggestions key known ∨
      (suggestions key known).length = maxCount ∧ ∀ s ∈ suggestions key known, Closer key s x := by
  have listed : x ∈ ranked key known := mem_ranked_iff.2 ⟨inside, other, close⟩
  have sorted : (ranked key known).Pairwise (Closer key) := pairwise_ranked nodup
  rw [suggestions_eq_take]
  rw [← List.take_append_drop maxCount (ranked key known)] at listed sorted
  rcases List.mem_append.1 listed with here | later
  · exact .inl here
  · have filled := List.length_pos_of_mem later
    rw [List.length_drop] at filled
    exact .inr ⟨List.length_take_of_le (by omega),
      fun s hs => (List.pairwise_append.1 sorted).2.2 s hs x later⟩

end MessageFormat.Suggestion
