import MessageFormat.Locale
import Mathlib

/-!
# Locale tags

Normalizing a tag twice is normalizing it once (`Locale.normalize_normalize`). Each candidate of a
locale is a front part of those before it, cut off in front of a hyphen (`Locale.pairwise_chainFrom`).
They get shorter and shorter, so that those tried before one are those that stand in front of it
(`Locale.triedBefore_iff`).
-/

namespace MessageFormat

/-! ## Trimming -/

namespace Text

variable {cs : List Char}

theorem head?_trimChars : ∀ c ∈ (trimChars cs).head?, isWhiteSpace c = false := by
  intro c first
  obtain ⟨rest, split⟩ := List.head?_eq_some_iff.1 first
  have front : trimChars cs <+: cs.dropWhile isWhiteSpace :=
    List.rdropWhile_prefix isWhiteSpace (cs.dropWhile isWhiteSpace)
  obtain ⟨cut, whole⟩ := front
  have kept := List.head?_dropWhile_not isWhiteSpace cs
  rwa [← whole, split] at kept

theorem getLast?_trimChars : ∀ c ∈ (trimChars cs).getLast?, isWhiteSpace c = false := by
  intro c last
  rw [trimChars, List.getLast?_reverse] at last
  have kept := List.head?_dropWhile_not isWhiteSpace (cs.dropWhile isWhiteSpace).reverse
  rwa [last] at kept

theorem dropWhile_eq_self (first : ∀ c ∈ cs.head?, isWhiteSpace c = false) :
    cs.dropWhile isWhiteSpace = cs := by
  cases cs with
  | nil => rfl
  | cons c rest => exact List.dropWhile_cons_of_neg (by rw [first c rfl]; exact nofun)

theorem trimChars_eq_self (first : ∀ c ∈ cs.head?, isWhiteSpace c = false)
    (last : ∀ c ∈ cs.getLast?, isWhiteSpace c = false) : trimChars cs = cs := by
  rw [← List.head?_reverse] at last
  rw [trimChars, dropWhile_eq_self first, dropWhile_eq_self last, List.reverse_reverse]

theorem isWhiteSpace_of_isAlpha {c : Char} (h : c.isAlpha = true) : isWhiteSpace c = false := by
  simp only [Char.isAlpha, Char.isUpper, Char.isLower, Bool.or_eq_true, Bool.and_eq_true,
    decide_eq_true_eq, ge_iff_le, UInt32.le_iff_toNat_le, Char.toNat_val] at h
  simp [isWhiteSpace, inRanges, whiteSpaceRanges] at h ⊢
  omega

end Text

namespace Locale

/-! ## Normalized tags -/

def normalizeChar (c : Char) : Char :=
  if c = '_' then '-' else c.toLower

theorem normalizeChars_eq (cs : List Char) :
    normalizeChars cs = (Text.trimChars cs).map normalizeChar := rfl

theorem isWhiteSpace_normalizeChar (c : Char) :
    Text.isWhiteSpace (normalizeChar c) = Text.isWhiteSpace c := by
  rw [normalizeChar]
  split_ifs with underscore
  · rw [underscore]
    rfl
  · by_cases upper : c.isUpper = true
    · have alpha : c.isAlpha = true := by rw [Char.isAlpha, upper, Bool.true_or]
      rw [Text.isWhiteSpace_of_isAlpha alpha,
        Text.isWhiteSpace_of_isAlpha (by rwa [Char.isAlpha_toLower_eq_isAlpha])]
    · rw [Char.toLower_eq_of_not_isUpper upper]

theorem toLower_ne {c d : Char} (other : c ≠ d) (notAlpha : d.isAlpha = false) : c.toLower ≠ d := by
  by_cases upper : c.isUpper = true
  · rintro rfl
    rw [Char.isAlpha_toLower_eq_isAlpha, Char.isAlpha, upper, Bool.true_or] at notAlpha
    cases notAlpha
  · rwa [Char.toLower_eq_of_not_isUpper upper]

theorem normalizeChar_normalizeChar (c : Char) :
    normalizeChar (normalizeChar c) = normalizeChar c := by
  rw [normalizeChar.eq_def c]
  split_ifs with underscore
  · rfl
  · rw [normalizeChar, if_neg (toLower_ne underscore rfl), Char.toLower_toLower_eq_toLower]

theorem normalizeChars_normalizeChars (cs : List Char) :
    normalizeChars (normalizeChars cs) = normalizeChars cs := by
  have trimmed : Text.trimChars (normalizeChars cs) = normalizeChars cs := by
    rw [normalizeChars_eq]
    refine Text.trimChars_eq_self (fun c first => ?_) fun c last => ?_
    · rw [List.head?_map] at first
      obtain ⟨d, hd, rfl⟩ := Option.map_eq_some_iff.1 first
      rw [isWhiteSpace_normalizeChar, Text.head?_trimChars d hd]
    · rw [List.getLast?_map] at last
      obtain ⟨d, hd, rfl⟩ := Option.map_eq_some_iff.1 last
      rw [isWhiteSpace_normalizeChar, Text.getLast?_trimChars d hd]
  rw [normalizeChars_eq (normalizeChars cs), trimmed, normalizeChars_eq, List.map_map]
  exact List.map_congr_left fun c _ => normalizeChar_normalizeChar c

@[simp] theorem normalize_normalize (tag : String) : normalize (normalize tag) = normalize tag := by
  rw [normalize, normalize, String.toList_ofList, normalizeChars_normalizeChars]

/-! ## Candidates -/

variable {cs front shorter : List Char}

theorem beforeLastHyphen?_eq_some (h : beforeLastHyphen? cs = some front) :
    ∃ last, cs = front ++ '-' :: last := by
  induction cs generalizing front with
  | nil => cases h
  | cons c rest ih =>
    rw [beforeLastHyphen?] at h
    split at h
    · rename_i shorter found
      cases h
      obtain ⟨last, split⟩ := ih found
      exact ⟨last, by rw [split, List.cons_append]⟩
    · split_ifs at h with hyphen
      cases h
      exact ⟨rest, by rw [hyphen, List.nil_append]⟩

theorem endsInSingleton_iff : endsInSingleton cs = true ↔
    ∃ front c, cs = front ++ ['-', c] ∧ c ≠ '-' ∧ c.utf8Size = 1 := by
  rw [endsInSingleton]
  constructor
  · intro h
    split at h
    · rename_i c rest reversed
      refine ⟨rest.reverse, c, ?_, by simpa using h⟩
      rw [← List.reverse_reverse cs, reversed]
      simp
    · cases h
  · rintro ⟨front, c, rfl, single⟩
    simpa using single

/-- Shortening cuts a tag off in front of a hyphen. -/
theorem shorten?_eq_some (h : shorten? cs = some shorter) : ∃ cut, cs = shorter ++ '-' :: cut := by
  rw [shorten?] at h
  split at h
  · cases h
  · rename_i front found
    obtain ⟨last, rfl⟩ := beforeLastHyphen?_eq_some found
    split_ifs at h with singleton
    · cases h
      obtain ⟨front, c, rfl, -⟩ := endsInSingleton_iff.1 singleton
      exact ⟨c :: '-' :: last, by simp⟩
    · cases h
      exact ⟨last, rfl⟩

theorem length_lt_of_shorten? (h : shorten? cs = some shorter) : shorter.length < cs.length := by
  obtain ⟨cut, rfl⟩ := shorten?_eq_some h
  simp

/-- Whatever is tried later was cut off the tag in front of a hyphen, in one step or in several. -/
theorem exists_cut_of_mem_chainFrom {count : Nat} {tag : List Char}
    (h : tag ∈ chainFrom count cs) : tag = cs ∨ ∃ rest, cs = tag ++ '-' :: rest := by
  fun_induction chainFrom count cs with
  | case1 => cases h
  | case2 => cases h
  | case3 count cs filled shorter found ih =>
    rcases List.mem_cons.1 h with rfl | later
    · exact .inl rfl
    · obtain ⟨cut, rfl⟩ := shorten?_eq_some found
      right
      rcases ih later with rfl | ⟨rest, rfl⟩
      · exact ⟨cut, rfl⟩
      · exact ⟨rest ++ '-' :: cut, by simp⟩
  | case4 count cs filled done => exact .inl (List.mem_singleton.1 h)

theorem pairwise_chainFrom (count : Nat) (cs : List Char) :
    (chainFrom count cs).Pairwise fun longer shorter => ∃ rest, longer = shorter ++ '-' :: rest := by
  fun_induction chainFrom count cs with
  | case1 => exact .nil
  | case2 => exact .nil
  | case3 count cs filled shorter found ih =>
    refine .cons (fun tag later => ?_) ih
    obtain ⟨cut, rfl⟩ := shorten?_eq_some found
    rcases exists_cut_of_mem_chainFrom later with rfl | ⟨rest, rfl⟩
    · exact ⟨cut, rfl⟩
    · exact ⟨rest ++ '-' :: cut, by simp⟩
  | case4 count cs filled done => exact List.pairwise_singleton _ _

theorem ne_nil_of_mem_chainFrom {count : Nat} {tag : List Char} (h : tag ∈ chainFrom count cs) :
    tag ≠ [] := by
  fun_induction chainFrom count cs with
  | case1 => cases h
  | case2 => cases h
  | case3 count cs filled shorter found ih =>
    rcases List.mem_cons.1 h with rfl | later
    · simpa using filled
    · exact ih later
  | case4 count cs filled done =>
    rw [List.mem_singleton.1 h]
    simpa using filled

theorem exists_chainFrom_cons {count : Nat} (filled : cs ≠ []) (enough : cs.length ≤ count) :
    ∃ later, chainFrom count cs = cs :: later := by
  cases count with
  | zero => exact absurd (List.eq_nil_of_length_eq_zero (Nat.le_zero.1 enough)) filled
  | succ count =>
    rw [chainFrom, if_neg (by simpa using filled)]
    cases shorten? cs with
    | none => exact ⟨[], rfl⟩
    | some shorter => exact ⟨chainFrom count shorter, rfl⟩

theorem candidates_singleton (locale : String) : candidates [locale] = chain locale := by
  rw [candidates, List.flatMap_singleton]

theorem pairwise_candidates (locale : String) :
    (candidates [locale]).Pairwise fun tag later => later.length < tag.length := by
  rw [candidates_singleton, chain, List.pairwise_map]
  refine (pairwise_chainFrom _ _).imp fun {tag later} cut => ?_
  obtain ⟨rest, rfl⟩ := cut
  rw [String.length_ofList, String.length_ofList]
  simp

/-- Of the candidates of a locale one is tried before another. -/
def TriedBefore (locale earlier later : String) : Prop :=
  List.Sublist [earlier, later] (candidates [locale])

instance (locale earlier later : String) : Decidable (TriedBefore locale earlier later) :=
  inferInstanceAs (Decidable (List.Sublist _ _))

theorem triedBefore_iff {locale tag earlier : String} {before behind : List String}
    (split : candidates [locale] = before ++ tag :: behind) :
    TriedBefore locale earlier tag ↔ earlier ∈ before := by
  constructor
  · intro tried
    have pair := (pairwise_candidates locale).sublist tried
    have longer : tag.length < earlier.length := List.rel_of_pairwise_cons pair List.mem_cons_self
    have inside : earlier ∈ before ++ tag :: behind :=
      split ▸ tried.subset List.mem_cons_self
    rcases List.mem_append.1 inside with here | here
    · exact here
    · have shorter : earlier.length ≤ tag.length := by
        have pairwise := pairwise_candidates locale
        rw [split, List.pairwise_append, List.pairwise_cons] at pairwise
        rcases List.mem_cons.1 here with rfl | later
        · exact le_rfl
        · exact (pairwise.2.1.1 earlier later).le
      exact absurd longer (Nat.not_lt.2 shorter)
  · intro here
    rw [TriedBefore, split]
    exact (List.singleton_sublist.2 here).append (List.singleton_sublist.2 List.mem_cons_self)

end Locale

end MessageFormat
