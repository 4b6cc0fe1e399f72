import MessageFormat.Identifier.Scheme
import MessageFormat.Proofs.Reading

/-!
# Slugs

The words of a text are its longest runs of ASCII letters and digits, and a text has one list of
them (`words_iff`). In lower case and joined, they leave no underscore at an end and no two in a row
(`joined_intercalate`), and a cut takes away from that only at its end (`Identifier.slug_words`).
-/

namespace MessageFormat

namespace Slug

variable {c : Char} {cs w rest : List Char} {ws : List (List Char)}

/-! ## Spelling -/

/-- A letter of the Latin-1 supplement: all of its second half but two signs. -/
def IsLatinLetter (c : Char) : Prop :=
  0xC0 ≤ c.toNat ∧ c.toNat ≤ 0xFF ∧ c ≠ '×' ∧ c ≠ '÷'

instance (c : Char) : Decidable (IsLatinLetter c) :=
  inferInstanceAs (Decidable (_ ∧ _))

theorem spelled_of_latinSpelling? {spelling : String} (h : latinSpelling? c = some spelling) :
    IsLatinLetter c ∧ spelling.toList ≠ [] ∧ ∀ d ∈ spelling.toList, d.isAlphanum = true := by
  unfold latinSpelling? at h
  split at h <;> cases h <;> exact ⟨by decide, by simp⟩

/-- Every letter of the supplement is spelled, and nothing else is. -/
theorem isSome_latinSpelling?_iff : (latinSpelling? c).isSome = true ↔ IsLatinLetter c := by
  constructor
  · intro spelled
    obtain ⟨spelling, h⟩ := Option.isSome_iff_exists.1 spelled
    exact (spelled_of_latinSpelling? h).1
  · rintro ⟨least, greatest, times, divided⟩
    have table : ∀ n < 0x100, 0xC0 ≤ n → Char.ofNat n ≠ '×' → Char.ofNat n ≠ '÷' →
        (latinSpelling? (Char.ofNat n)).isSome = true := by decide +kernel
    have spelled := table c.toNat (by omega) least
    rw [Char.ofNat_toNat] at spelled
    exact spelled times divided

theorem forall_mem_spellLatin_iff : (∀ c ∈ spellLatin cs, c.isAlphanum = false) ↔
    ∀ c ∈ cs, c.isAlphanum = false ∧ ¬ IsLatinLetter c := by
  simp only [spellLatin, List.mem_flatMap, forall_exists_index, and_imp]
  rw [forall_comm]
  refine forall_congr' fun c => ?_
  rw [forall_comm]
  refine forall_congr' fun hc => ?_
  cases h : latinSpelling? c with
  | none =>
    have other : ¬ IsLatinLetter c := by simp [← isSome_latinSpelling?_iff, h]
    simp [other]
  | some spelling =>
    obtain ⟨latin, nonempty, letters⟩ := spelled_of_latinSpelling? h
    obtain ⟨d, hd⟩ := List.exists_mem_of_ne_nil _ nonempty
    refine iff_of_false (fun none => ?_) fun none => none.2 latin
    exact Bool.noConfusion ((letters d hd).symm.trans (none d hd))

/-! ## Words -/

/-- `Words cs ws`: the longest runs of ASCII letters and digits in a text, from the left. -/
inductive Words : List Char → List (List Char) → Prop where
  | nil : Words [] []
  | skip {c : Char} {rest : List Char} {ws : List (List Char)} (other : c.isAlphanum = false)
      (behind : Words rest ws) : Words (c :: rest) ws
  | word {cs w rest : List Char} {ws : List (List Char)} (run : Run Char.isAlphanum cs w rest)
      (nonempty : w ≠ []) (behind : Words rest ws) : Words cs (w :: ws)

theorem wordsFrom_append (collected rest : List Char) (all : ∀ c ∈ w, c.isAlphanum = true) :
    wordsFrom collected (w ++ rest) = wordsFrom (w.reverse ++ collected) rest := by
  induction w generalizing collected with
  | nil => rfl
  | cons c w ih =>
    rw [List.cons_append, wordsFrom, if_pos (all c List.mem_cons_self),
      ih _ fun d hd => all d (List.mem_cons_of_mem _ hd)]
    simp

theorem words_skip (other : c.isAlphanum = false) : words (c :: rest) = words rest := by
  simp [words, wordsFrom, finishWord, other]

theorem wordsFrom_of_stopsAt (collected : List Char) (stops : StopsAt (!Char.isAlphanum ·) rest) :
    wordsFrom collected rest = finishWord collected ++ words rest := by
  cases rest with
  | nil => simp [words, wordsFrom, finishWord]
  | cons c rest =>
    have other : c.isAlphanum = false := by simpa using stopsAt_cons.1 stops
    rw [words_skip other, wordsFrom, if_neg (by simp [other]), words]

theorem words_of_run (run : Run Char.isAlphanum cs w rest) (nonempty : w ≠ []) :
    words cs = w :: words rest := by
  have finish : finishWord (w.reverse ++ []) = [w] := by simp [finishWord, nonempty]
  rw [run.split, words, wordsFrom_append [] rest run.all, wordsFrom_of_stopsAt _ run.longest, finish]
  rfl

theorem words_words (cs : List Char) : Words cs (words cs) := by
  induction hn : cs.length using Nat.strongRecOn generalizing cs with
  | ind n ih =>
    cases cs with
    | nil => exact .nil
    | cons c cs =>
      cases hc : c.isAlphanum with
      | false =>
        rw [words_skip hc]
        exact .skip hc (ih _ (by simp [← hn]) _ rfl)
      | true =>
        have run := run_takeWhile Char.isAlphanum (c :: cs)
        rw [List.takeWhile_cons_of_pos hc, List.dropWhile_cons_of_pos hc] at run
        rw [words_of_run run (by simp)]
        refine .word run (by simp) (ih _ ?_ _ rfl)
        rw [← hn]
        exact Nat.lt_succ_of_le (List.length_dropWhile_le _ _)

theorem words_iff : Words cs ws ↔ ws = words cs := by
  constructor
  · intro h
    induction h with
    | nil => rfl
    | skip other _ ih => rw [words_skip other, ih]
    | word run nonempty _ ih => rw [words_of_run run nonempty, ih]
  · rintro rfl
    exact words_words cs

theorem Words.mem (h : Words cs ws) : ∀ w ∈ ws, w ≠ [] ∧ ∀ c ∈ w, c.isAlphanum = true := by
  induction h with
  | nil => simp
  | skip _ _ ih => exact ih
  | word run nonempty _ ih => exact List.forall_mem_cons.2 ⟨⟨nonempty, run.all⟩, ih⟩

theorem Words.eq_nil_iff (h : Words cs ws) : ws = [] ↔ ∀ c ∈ cs, c.isAlphanum = false := by
  induction h with
  | nil => simp
  | skip other _ ih => simp [ih, other]
  | word run nonempty _ ih =>
    obtain ⟨c, hc⟩ := List.exists_mem_of_ne_nil _ nonempty
    refine iff_of_false (List.cons_ne_nil _ _) fun none => ?_
    have other := none c (by rw [run.split]; exact List.mem_append_left _ hc)
    exact Bool.noConfusion ((run.all c hc).symm.trans other)

/-! ## Joined words -/

/-- A word in lower case. -/
def IsLowered (w : List Char) : Prop :=
  w ≠ [] ∧ ∀ c ∈ w, c.isLower = true ∨ c.isDigit = true

theorem lower_or_digit_toLower (h : c.isAlphanum = true) :
    c.toLower.isLower = true ∨ c.toLower.isDigit = true := by
  rcases Bool.or_eq_true_iff.1 h with letter | digit
  · left
    rwa [Char.isLower_toLower_eq_isAlpha]
  · right
    have other : ¬ c.isUpper = true := by grind [Char.isUpper, Char.isDigit]
    rwa [Char.toLower_eq_of_not_isUpper other]

theorem isLowered_map_toLower (nonempty : w ≠ []) (all : ∀ c ∈ w, c.isAlphanum = true) :
    IsLowered (w.map Char.toLower) := by
  refine ⟨by simpa using nonempty, ?_⟩
  simpa using fun c hc => lower_or_digit_toLower (all c hc)

theorem IsLowered.notMem_underscore (h : IsLowered w) : '_' ∉ w := by
  intro underscore
  exact absurd (h.2 _ underscore) (by decide)

/-- Letters, digits and underscores, without an underscore at an end or two of them in a row. -/
structure Joined (cs : List Char) : Prop where
  chars : ∀ c ∈ cs, c.isLower = true ∨ c.isDigit = true ∨ c = '_'
  front : cs.head? ≠ some '_'
  back : cs.getLast? ≠ some '_'
  apart : cs.IsChain fun c d => c = '_' → d ≠ '_'

theorem IsLowered.joined (h : IsLowered w) : Joined w where
  chars c hc := (h.2 c hc).imp_right .inl
  front first := h.notMem_underscore (List.mem_of_mem_head? first)
  back last := h.notMem_underscore (List.mem_of_mem_getLast? last)
  apart := by
    refine List.Pairwise.isChain (List.pairwise_of_forall_mem_list ?_)
    rintro c hc d - rfl
    exact absurd hc h.notMem_underscore

theorem IsLowered.joined_append (h : IsLowered w) (behind : Joined cs) (nonempty : cs ≠ []) :
    Joined (w ++ '_' :: cs) where
  chars := by
    intro c hc
    rcases List.mem_append.1 hc with word | more
    · exact h.joined.chars c word
    · rcases List.mem_cons.1 more with rfl | later
      · exact .inr (.inr rfl)
      · exact behind.chars c later
  front := by
    rw [List.head?_append_of_ne_nil _ h.1]
    exact h.joined.front
  back := by
    rw [List.getLast?_append_of_ne_nil _ (List.cons_ne_nil _ _), List.getLast?_cons_of_ne_nil nonempty]
    exact behind.back
  apart := by
    refine List.isChain_append.2 ⟨h.joined.apart, ?_, ?_⟩
    · exact List.isChain_cons.2 ⟨fun d hd _ same => behind.front (same ▸ hd), behind.apart⟩
    · rintro c hc d - rfl
      exact absurd (List.mem_of_mem_getLast? hc) h.notMem_underscore

theorem intercalate_eq_nil_iff (all : ∀ w ∈ ws, IsLowered w) :
    ['_'].intercalate ws = [] ↔ ws = [] := by
  cases ws with
  | nil => simp
  | cons w ws =>
    have word : w ≠ [] := (all w List.mem_cons_self).1
    rcases eq_or_ne ws [] with rfl | more
    · simp [word]
    · simp [List.intercalate_cons_of_ne_nil more]

theorem joined_intercalate (all : ∀ w ∈ ws, IsLowered w) : Joined (['_'].intercalate ws) := by
  induction ws with
  | nil => exact ⟨by simp, by simp, by simp, by simp⟩
  | cons w ws ih =>
    obtain ⟨word, others⟩ := List.forall_mem_cons.1 all
    rcases eq_or_ne ws [] with rfl | more
    · rw [List.intercalate_singleton]
      exact word.joined
    · rw [List.intercalate_cons_of_ne_nil more, List.append_assoc]
      exact word.joined_append (ih others) ((intercalate_eq_nil_iff others).not.2 more)

/-- A cut keeps all of that but the end: it may leave an underscore there. -/
theorem Joined.take (h : Joined cs) (n : Nat) :
    (∀ c ∈ cs.take n, c.isLower = true ∨ c.isDigit = true ∨ c = '_') ∧
      (cs.take n).head? ≠ some '_' ∧ ¬ ['_', '_'] <:+: cs.take n ∧
      ((cs.take n).getLast? = some '_' → (cs.take n).length = n) := by
  refine ⟨fun c hc => h.chars c (List.mem_of_mem_take hc), ?_, ?_, ?_⟩
  · intro first
    rw [List.head?_take] at first
    split at first
    · cases first
    · exact h.front first
  · rintro ⟨before, behind, split⟩
    have apart := h.apart.take n
    rw [← split, List.isChain_append, List.isChain_append] at apart
    simpa using apart.1.2.1
  · intro last
    rcases Nat.lt_or_ge n cs.length with short | whole
    · exact List.length_take_of_le short.le
    · rw [List.take_of_length_le whole] at last
      exact absurd last h.back

end Slug

namespace Identifier

open Slug (Words IsLatinLetter spellLatin)

/-- A slug is the first fifty characters of the words of the normalized pattern, spelled in ASCII,
in lower case and joined. It is empty just if there is neither a letter nor a digit to spell. -/
theorem slug_words (pattern : String) :
    ∃ ws, (∀ found, Words (spellLatin (normalized pattern).toList) found ↔ found = ws) ∧
      (slug pattern).toList = (['_'].intercalate (ws.map (·.map Char.toLower))).take 50 ∧
      (∀ c ∈ (slug pattern).toList, c.isLower = true ∨ c.isDigit = true ∨ c = '_') ∧
      (slug pattern).toList.head? ≠ some '_' ∧ ¬ ['_', '_'] <:+: (slug pattern).toList ∧
      ((slug pattern).toList.getLast? = some '_' → (slug pattern).length = 50) ∧
      (slug pattern = "" ↔
        ∀ c ∈ (normalized pattern).toList, c.isAlphanum = false ∧ ¬ IsLatinLetter c) := by
  have found := Slug.words_words (spellLatin (normalized pattern).toList)
  have lowered : ∀ w ∈ (Slug.words (spellLatin (normalized pattern).toList)).map
      (·.map Char.toLower), Slug.IsLowered w := by
    simpa using fun w hw => Slug.isLowered_map_toLower (found.mem w hw).1 (found.mem w hw).2
  have cut : (slug pattern).toList = (['_'].intercalate
      ((Slug.words (spellLatin (normalized pattern).toList)).map (·.map Char.toLower))).take 50 :=
    String.toList_ofList
  obtain ⟨chars, front, apart, back⟩ := (Slug.joined_intercalate lowered).take 50
  rw [← cut] at chars front apart back
  refine ⟨_, fun _ => Slug.words_iff, cut, chars, front, apart, ?_, ?_⟩
  · rwa [String.length_toList] at back
  · rw [← String.toList_eq_nil_iff, cut, ← Slug.forall_mem_spellLatin_iff, ← found.eq_nil_iff,
      List.take_eq_nil_iff, Slug.intercalate_eq_nil_iff lowered, List.map_eq_nil_iff]
    simp

end Identifier

end MessageFormat
