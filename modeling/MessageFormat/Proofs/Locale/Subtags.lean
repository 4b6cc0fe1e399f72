import MessageFormat.Proofs.Locale

/-!
# Subtags of one character

Shortening takes one subtag off a tag, and one of a single byte that this leaves at the end
(`Locale.shorten?_joinBack`). Only one: where two subtags of a character stand side by side inside a
tag, the first of them stays at the end of a candidate, and so does one of several bytes. There is no
other way for a candidate to end in a subtag of one character (`Locale.forall_not_dangles_iff`).
-/

namespace MessageFormat.Locale

variable {cs front last subtag : List Char} {subtags before : List (List Char)}

/-! ## The last hyphen -/

theorem beforeLastHyphen?_eq_none (h : '-' ∉ cs) : beforeLastHyphen? cs = none := by
  induction cs with
  | nil => rfl
  | cons c rest ih =>
    simp only [List.mem_cons, not_or] at h
    rw [beforeLastHyphen?, ih h.2, if_neg (Ne.symm h.1)]

theorem beforeLastHyphen?_append (front : List Char) (h : '-' ∉ last) :
    beforeLastHyphen? (front ++ '-' :: last) = some front := by
  induction front with
  | nil => simp [beforeLastHyphen?, beforeLastHyphen?_eq_none h]
  | cons c rest ih => rw [List.cons_append, beforeLastHyphen?, ih]

/-! ## Tags of subtags -/

/-- The tag of some subtags, the last of them first. -/
def joinBack : List (List Char) → List Char
  | [] => []
  | [subtag] => subtag
  | subtag :: next :: rest => joinBack (next :: rest) ++ '-' :: subtag

theorem joinBack_cons (subtag : List Char) (filled : before ≠ []) :
    joinBack (subtag :: before) = joinBack before ++ '-' :: subtag := by
  cases before with
  | nil => exact absurd rfl filled
  | cons next rest => rfl

theorem mem_joinBack {c : Char} (h : c ∈ joinBack subtags) : c = '-' ∨ ∃ s ∈ subtags, c ∈ s := by
  fun_induction joinBack subtags with
  | case1 => cases h
  | case2 subtag => exact .inr ⟨subtag, by simp, h⟩
  | case3 subtag next rest ih =>
    rw [List.mem_append, List.mem_cons] at h
    rcases h with inside | rfl | here
    · rcases ih inside with rfl | ⟨s, hs, here⟩
      · exact .inl rfl
      · exact .inr ⟨s, List.mem_cons_of_mem subtag hs, here⟩
    · exact .inl rfl
    · exact .inr ⟨subtag, by simp, here⟩

theorem map_joinBack {f : Char → Char} (hyphen : f '-' = '-') (subtags : List (List Char)) :
    (joinBack subtags).map f = joinBack (subtags.map (·.map f)) := by
  fun_induction joinBack subtags with
  | case1 => rfl
  | case2 => rfl
  | case3 subtag next rest ih =>
    rw [List.map_append, ih]
    simp [joinBack, hyphen]

theorem toList_intercalate_reverse (subtags : List String) :
    ("-".intercalate subtags.reverse).toList = joinBack (subtags.map String.toList) := by
  induction subtags with
  | nil => rfl
  | cons subtag rest ih =>
    cases rest with
    | nil => simp [joinBack]
    | cons next rest =>
      rw [List.reverse_cons, String.intercalate_append_of_ne_nil (by simp) (by simp),
        String.toList_append, String.toList_append, ih]
      simp [joinBack]

/-- A subtag has characters, and no hyphen is among them. -/
def IsPlain (subtag : List Char) : Prop :=
  subtag ≠ [] ∧ '-' ∉ subtag

theorem joinBack_ne_nil (plain : ∀ s ∈ subtags, IsPlain s) (filled : subtags ≠ []) :
    joinBack subtags ≠ [] := by
  match subtags with
  | [] => exact absurd rfl filled
  | [subtag] => exact (plain subtag (by simp)).1
  | subtag :: next :: rest => simp [joinBack]

/-- The only way for a tag to end in a hyphen and a character is that this is its last subtag. -/
theorem joinBack_eq_append_iff {c : Char} (plain : ∀ s ∈ subtags, IsPlain s) (other : c ≠ '-') :
    joinBack subtags = front ++ ['-', c] ↔
      ∃ before, before ≠ [] ∧ subtags = [c] :: before ∧ front = joinBack before := by
  constructor
  · intro h
    match subtags with
    | [] => simp [joinBack] at h
    | [subtag] =>
      rw [joinBack] at h
      exact absurd (by simp [h]) (plain subtag (by simp)).2
    | subtag :: next :: rest =>
      have cut := congrArg beforeLastHyphen? h
      rw [joinBack, beforeLastHyphen?_append _ (plain subtag (by simp)).2,
        beforeLastHyphen?_append front (by simpa using other.symm)] at cut
      obtain rfl := Option.some.inj cut
      rw [joinBack, List.append_cancel_left_eq, List.cons.injEq] at h
      exact ⟨next :: rest, by simp, by rw [h.2], rfl⟩
  · rintro ⟨before, filled, rfl, rfl⟩
    exact joinBack_cons [c] filled

/-! ## Shortening -/

theorem utf8Len_eq_one_iff : String.utf8Len cs = 1 ↔ ∃ c, cs = [c] ∧ c.utf8Size = 1 := by
  match cs with
  | [] => simp
  | [c] => simp
  | c :: d :: rest =>
    have := c.utf8Size_pos
    have := d.utf8Size_pos
    simp
    omega

/-- Subtags, the last of them first, without one of a single byte that stands last, but not alone. -/
def dropSingleton : List (List Char) → List (List Char)
  | subtag :: next :: rest =>
      if String.utf8Len subtag = 1 then next :: rest else subtag :: next :: rest
  | subtags => subtags

theorem dropSingleton_ne_nil (filled : subtags ≠ []) : dropSingleton subtags ≠ [] := by
  fun_cases dropSingleton subtags <;> simp_all

theorem mem_of_mem_dropSingleton (h : subtag ∈ dropSingleton subtags) : subtag ∈ subtags := by
  revert h
  fun_cases dropSingleton subtags <;> simp_all

theorem dropSingleton_of_not_endsInSingleton (plain : ∀ s ∈ subtags, IsPlain s)
    (none : endsInSingleton (joinBack subtags) = false) : dropSingleton subtags = subtags := by
  fun_cases dropSingleton subtags with
  | case1 subtag next rest single =>
    obtain ⟨c, rfl, byte⟩ := utf8Len_eq_one_iff.1 single
    have other : c ≠ '-' := by
      rintro rfl
      simpa [IsPlain] using plain ['-'] (by simp)
    have ends := endsInSingleton_iff.2 ⟨joinBack (next :: rest), c, rfl, other, byte⟩
    exact absurd (ends.symm.trans none) (by decide)
  | case2 => rfl
  | case3 => rfl

theorem shorten?_joinBack (plain : ∀ s ∈ subtag :: before, IsPlain s) (filled : before ≠ []) :
    shorten? (joinBack (subtag :: before)) = some (joinBack (dropSingleton before)) := by
  obtain ⟨here, others⟩ := List.forall_mem_cons.1 plain
  rw [joinBack_cons subtag filled, shorten?, beforeLastHyphen?_append _ here.2]
  dsimp only
  cases ends : endsInSingleton (joinBack before) with
  | false => simp [dropSingleton_of_not_endsInSingleton others ends]
  | true =>
    obtain ⟨front, c, split, other, byte⟩ := endsInSingleton_iff.1 ends
    obtain ⟨rest, more, rfl, rfl⟩ := (joinBack_eq_append_iff others other).1 split
    obtain ⟨next, later, rfl⟩ := List.exists_cons_of_ne_nil more
    simp [split, dropSingleton, byte]

/-! ## Candidates that end in one character -/

/-- A tag ends in a subtag of one character, in front of which there are others. -/
def Dangles (tag : String) : Prop :=
  ∃ front c, c ≠ '-' ∧ tag.toList = front ++ ['-', c]

/-- The last of some subtags, which comes first, is one character, and others stand before it. -/
def EndsAlone : List (List Char) → Prop
  | subtag :: _ :: _ => subtag.length = 1
  | _ => False

theorem dangles_joinBack_iff (plain : ∀ s ∈ subtags, IsPlain s) :
    Dangles (String.ofList (joinBack subtags)) ↔ EndsAlone subtags := by
  rw [Dangles, String.toList_ofList]
  constructor
  · rintro ⟨front, c, other, h⟩
    obtain ⟨before, filled, rfl, -⟩ := (joinBack_eq_append_iff plain other).1 h
    obtain ⟨next, rest, rfl⟩ := List.exists_cons_of_ne_nil filled
    rfl
  · intro h
    match subtags with
    | [] | [_] => cases h
    | subtag :: next :: rest =>
      obtain ⟨c, rfl⟩ := List.length_eq_one_iff.1 h
      refine ⟨joinBack (next :: rest), c, ?_, rfl⟩
      rintro rfl
      simpa [IsPlain] using plain ['-'] (by simp)

/-- Of the subtags in front of the last one, the last of them first: the very first aside, none is
one character of several bytes, and no two side by side are one character each. -/
def Spaced (before : List (List Char)) : Prop :=
  (∀ s ∈ before.dropLast, s.length = 1 → String.utf8Len s = 1) ∧
    before.dropLast.IsChain fun s t => ¬ (s.length = 1 ∧ t.length = 1)

theorem spaced_cons_cons {s t : List Char} {rest : List (List Char)} :
    Spaced (s :: t :: rest) ↔ (s.length = 1 → String.utf8Len s = 1) ∧
      (rest ≠ [] → ¬ (s.length = 1 ∧ t.length = 1)) ∧ Spaced (t :: rest) := by
  cases rest with
  | nil => simp [Spaced]
  | cons u rest =>
    simp only [Spaced, List.dropLast_cons_cons, List.forall_mem_cons, List.isChain_cons_cons]
    simp
    tauto

/-- What one step does to the subtags in front of the last: it must not leave one alone at the end. -/
theorem spaced_iff_dropSingleton (filled : before ≠ []) :
    Spaced before ↔ ¬ EndsAlone (dropSingleton before) ∧ Spaced (dropSingleton before).tail := by
  match before with
  | [] => exact absurd rfl filled
  | [s] => simp [Spaced, EndsAlone, dropSingleton]
  | s :: t :: rest =>
    rw [spaced_cons_cons, dropSingleton]
    split_ifs with single
    · -- The single byte is taken off as well, so that what counts is the subtag before it.
      obtain ⟨c, rfl, byte⟩ := utf8Len_eq_one_iff.1 single
      cases rest with
      | nil => simp [Spaced, EndsAlone, byte]
      | cons u rest =>
        simp only [spaced_cons_cons, EndsAlone, List.tail_cons, single]
        simp
        tauto
    · simp only [EndsAlone, List.tail_cons]
      tauto

theorem tail_chainFrom_singleton (count : Nat) (plain : IsPlain subtag) :
    (chainFrom count subtag).tail = [] := by
  have whole : shorten? subtag = none := by rw [shorten?, beforeLastHyphen?_eq_none plain.2]
  cases count with
  | zero => rfl
  | succ count => simp [chainFrom, whole, plain.1]

theorem tail_chainFrom_joinBack (count : Nat) (plain : ∀ s ∈ subtag :: before, IsPlain s)
    (filled : before ≠ []) : (chainFrom (count + 1) (joinBack (subtag :: before))).tail =
      chainFrom count (joinBack (dropSingleton before)) := by
  have some := joinBack_ne_nil plain (List.cons_ne_nil subtag before)
  rw [chainFrom, if_neg (by simpa using some), shorten?_joinBack plain filled, List.tail_cons]

/-- No candidate but the tag itself ends in one character, just if that is so after one step and from
there on. -/
theorem forall_tail_chainFrom_iff {count : Nat} (plain : ∀ s ∈ subtags, IsPlain s)
    (enough : (joinBack subtags).length ≤ count) :
    (∀ tag ∈ (chainFrom count (joinBack subtags)).tail, ¬ Dangles (String.ofList tag)) ↔
      Spaced subtags.tail := by
  induction count generalizing subtags with
  | zero =>
    have empty : subtags = [] := by
      by_contra filled
      exact joinBack_ne_nil plain filled (List.eq_nil_of_length_eq_zero (Nat.le_zero.1 enough))
    simp [empty, chainFrom, Spaced]
  | succ count ih =>
    cases subtags with
    | nil => simp [joinBack, chainFrom, Spaced]
    | cons subtag before =>
      by_cases filled : before = []
      · subst filled
        simp [joinBack, tail_chainFrom_singleton _ (plain subtag (by simp)), Spaced]
      · have less := length_lt_of_shorten? (shorten?_joinBack plain filled)
        have shorter : (joinBack (dropSingleton before)).length ≤ count := by omega
        have kept : ∀ s ∈ dropSingleton before, IsPlain s := fun s inside =>
          plain s (List.mem_cons_of_mem subtag (mem_of_mem_dropSingleton inside))
        obtain ⟨later, split⟩ := exists_chainFrom_cons
          (joinBack_ne_nil kept (dropSingleton_ne_nil filled)) shorter
        have onwards := ih kept shorter
        rw [split, List.tail_cons] at onwards
        rw [tail_chainFrom_joinBack count plain filled, split, List.forall_mem_cons, onwards,
          dangles_joinBack_iff kept, List.tail_cons, spaced_iff_dropSingleton filled]

/-! ## Requests -/

/-- A subtag as it may be requested: neither empty nor with a blank or a sign that divides subtags. -/
def IsSubtag (subtag : String) : Prop :=
  subtag ≠ "" ∧ ∀ c ∈ subtag.toList, c ≠ '-' ∧ c ≠ '_' ∧ Text.isWhiteSpace c = false

theorem utf8Size_toLower (c : Char) : c.toLower.utf8Size = c.utf8Size := by
  rw [Char.toLower]
  split_ifs with upper
  · have small : c.utf8Size = 1 := by
      rw [Char.utf8Size_eq_one_iff]
      exact UInt32.le_trans upper.2 (by decide)
    rw [small, Char.utf8Size_eq_one_iff]
    simp only [ge_iff_le, UInt32.le_iff_toNat_le] at upper
    simp only [UInt32.le_iff_toNat_le, UInt32.toNat_add]
    simp at upper ⊢
    omega
  · rfl

theorem utf8Len_map_normalizeChar (cs : List Char) :
    String.utf8Len (cs.map normalizeChar) = String.utf8Len cs := by
  induction cs with
  | nil => rfl
  | cons c rest ih =>
    have size : (normalizeChar c).utf8Size = c.utf8Size := by
      rw [normalizeChar]
      split_ifs with underscore
      · rw [underscore]
        rfl
      · exact utf8Size_toLower c
    simp [ih, size]

theorem isPlain_of_isSubtag {subtag : String} (h : IsSubtag subtag) :
    IsPlain (subtag.toList.map normalizeChar) := by
  refine ⟨by simpa using h.1, ?_⟩
  rw [List.mem_map]
  rintro ⟨c, inside, hyphen⟩
  obtain ⟨other, underscore, -⟩ := h.2 c inside
  rw [normalizeChar, if_neg underscore] at hyphen
  exact toLower_ne other rfl hyphen

theorem normalizeChars_intercalate {subtags : List String} (each : ∀ s ∈ subtags, IsSubtag s) :
    normalizeChars ("-".intercalate subtags).toList =
      joinBack (subtags.reverse.map fun s => s.toList.map normalizeChar) := by
  have joined := toList_intercalate_reverse subtags.reverse
  rw [List.reverse_reverse] at joined
  have noBlank : ∀ c ∈ joinBack (subtags.reverse.map String.toList),
      Text.isWhiteSpace c = false := by
    intro c inside
    rcases mem_joinBack inside with rfl | ⟨cs, here, inside⟩
    · rfl
    · obtain ⟨s, hs, rfl⟩ := List.mem_map.1 here
      exact ((each s (List.mem_reverse.1 hs)).2 c inside).2.2
  rw [joined, normalizeChars_eq, Text.trimChars_eq_self
    (fun c first => noBlank c (List.mem_of_head? first))
    fun c last => noBlank c (List.mem_of_getLast? last), map_joinBack rfl, List.map_map]
  rfl

/-- Of a tag that is written as subtags, no candidate but the tag itself ends in a subtag of one
character behind others, just if its inner subtags, neither the first nor the last, have no two of
one character side by side and none of one character in several bytes. -/
theorem forall_not_dangles_iff (subtags : List String) (each : ∀ s ∈ subtags, IsSubtag s) :
    (∀ tag ∈ (candidates ["-".intercalate subtags]).tail, ¬ Dangles tag) ↔
      (∀ s ∈ subtags.dropLast.tail, s.length = 1 → s.utf8ByteSize = 1) ∧
        subtags.dropLast.tail.IsChain fun s next => ¬ (s.length = 1 ∧ next.length = 1) := by
  have plain : ∀ s ∈ subtags.reverse.map fun s => s.toList.map normalizeChar, IsPlain s := by
    intro cs here
    obtain ⟨s, hs, rfl⟩ := List.mem_map.1 here
    exact isPlain_of_isSubtag (each s (List.mem_reverse.1 hs))
  have inner : (subtags.reverse.map fun s => s.toList.map normalizeChar).tail.dropLast =
      subtags.dropLast.tail.reverse.map fun s => s.toList.map normalizeChar := by
    rw [← List.map_tail, ← List.map_dropLast, List.tail_reverse, List.dropLast_reverse]
  have bytes (s : String) : String.utf8Len (s.toList.map normalizeChar) = s.utf8ByteSize := by
    rw [utf8Len_map_normalizeChar, ← String.utf8ByteSize_ofList, String.ofList_toList]
  rw [candidates_singleton, chain, normalizeChars_intercalate each, ← List.map_tail,
    List.forall_mem_map, forall_tail_chainFrom_iff plain le_rfl, Spaced, inner, List.forall_mem_map,
    List.isChain_map, List.isChain_reverse]
  simp only [List.mem_reverse, List.length_map, String.length_toList, bytes, and_comm]

theorem dangles_of_private_use :
    let subtags := ["en", "x", "a", "b"]
    (∀ s ∈ subtags, IsSubtag s) ∧
      candidates ["-".intercalate subtags] = ["en-x-a-b", "en-x", "en"] ∧
      ¬ ∀ tag ∈ (candidates ["-".intercalate subtags]).tail, ¬ Dangles tag := by
  intro subtags
  have each : ∀ s ∈ subtags, IsSubtag s := by
    simp only [subtags, List.forall_mem_cons, IsSubtag]
    simp
    decide
  refine ⟨each, by decide +kernel, fun none => ?_⟩
  have spaced := ((forall_not_dangles_iff subtags each).1 none).2
  exact absurd spaced (by decide)

end MessageFormat.Locale
